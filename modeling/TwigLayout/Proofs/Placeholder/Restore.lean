import TwigLayout.Proofs.Placeholder.Parts

/-!
# Restoring any text

What restoring does to a text about which nothing is known. The regions of a table are *walled* if
each of them starts and ends with characters that no token has, and holds no token. Then a region
that was put back is never touched again:

1. `Walled.not_infix_restoreEntries`: no token of the table is left, and no other text that the
   regions wall off comes about.
2. `Walled.spread_restoreEntries`: if no token was missing, the regions stand in the result at
   places that do not overlap.
-/

namespace TwigLayout.Placeholder

open Text

/-- Each region starts and ends with fences for every token, and holds no token. -/
structure Walled (entries : List (Text × Text)) : Prop where
  ne_nil : ∀ e ∈ entries, e.1 ≠ []
  fenced : ∀ e ∈ entries, ∀ f ∈ entries, Fenced e.1 f.2
  not_infix : ∀ e ∈ entries, ∀ f ∈ entries, ¬ e.1 <:+: f.2

theorem Walled.tail {e : Text × Text} {entries : List (Text × Text)} (h : Walled (e :: entries)) :
    Walled entries where
  ne_nil f hf := h.ne_nil f (List.mem_cons_of_mem _ hf)
  fenced f hf g hg := h.fenced f (List.mem_cons_of_mem _ hf) g (List.mem_cons_of_mem _ hg)
  not_infix f hf g hg := h.not_infix f (List.mem_cons_of_mem _ hf) g (List.mem_cons_of_mem _ hg)

/-- A missing token changes nothing, so the text is the same as if all tokens were replaced. -/
theorem restoreEntries_cons_fst (e : Text × Text) (entries : List (Text × Text)) (s : Text) :
    (restoreEntries (e :: entries) s).1 = (restoreEntries entries (replaceAll e.1 e.2 s)).1 := by
  obtain ⟨token, region⟩ := e
  rw [restoreEntries]
  split
  · rfl
  · next h =>
    rw [replaceAll_of_not_occursIn (by simpa using h)]

/-- Restoring fails only if it is strict and a token is missing. -/
theorem restore_result_eq_ok_iff {k : Kind} {strict : Bool} {t : Table} {s out : Text} :
    (restore k strict t s).result = .ok out ↔
      (restoreEntries t.entries s).1 = out ∧
        (strict = true → (restoreEntries t.entries s).2 = []) := by
  rw [restore]
  split
  · next s' he =>
    rw [he]
    simp
  · next s' missing hm he =>
    rw [he]
    cases strict with
    | true => simpa using fun _ => hm
    | false =>
      show (.ok s' : Except Fault Text) = .ok out ↔ _
      simp

/-! ## No token is left -/

/-- Restoring does not bring about a text that all regions wall off and none holds. -/
theorem not_infix_restoreEntries {entries : List (Text × Text)} {w : Text}
    (hne : ∀ e ∈ entries, e.1 ≠ []) (hf : ∀ e ∈ entries, Fenced w e.2)
    (hw : ∀ e ∈ entries, ¬ w <:+: e.2) {s : Text} (hs : ¬ w <:+: s) :
    ¬ w <:+: (restoreEntries entries s).1 := by
  induction entries generalizing s with
  | nil => exact hs
  | cons e entries ih =>
    rw [restoreEntries_cons_fst]
    refine ih (fun f hm => hne f (List.mem_cons_of_mem _ hm))
      (fun f hm => hf f (List.mem_cons_of_mem _ hm))
      (fun f hm => hw f (List.mem_cons_of_mem _ hm)) ?_
    exact not_infix_replaceAll (hne e List.mem_cons_self) (hf e List.mem_cons_self)
      (hw e List.mem_cons_self) fun a ha _ hi => hs (hi.trans ha)

/-- No token of the table is left. -/
theorem Walled.not_infix_restoreEntries {entries : List (Text × Text)} (h : Walled entries)
    (s : Text) : ∀ e ∈ entries, ¬ e.1 <:+: (restoreEntries entries s).1 := by
  induction entries generalizing s with
  | nil =>
    intro e he
    exact absurd he List.not_mem_nil
  | cons e entries ih =>
    intro f hf
    rw [restoreEntries_cons_fst]
    rcases List.mem_cons.mp hf with rfl | hf
    · -- gone after its own turn, and not brought about by the later ones
      refine Placeholder.not_infix_restoreEntries h.tail.ne_nil
        (fun g hg => h.fenced f List.mem_cons_self g (List.mem_cons_of_mem _ hg))
        (fun g hg => h.not_infix f List.mem_cons_self g (List.mem_cons_of_mem _ hg)) ?_
      exact not_infix_replaceAll (h.ne_nil f List.mem_cons_self)
        (h.fenced f List.mem_cons_self f List.mem_cons_self)
        (h.not_infix f List.mem_cons_self f List.mem_cons_self) fun _ _ hi => hi
    · exact ih h.tail _ f hf

/-! ## No region is lost -/

/-- `Laid regions s`: the texts stand in `s` one behind the other, with gaps around them. -/
inductive Laid : List Text → Text → Prop
  | nil (s : Text) : Laid [] s
  | cons (gap region : Text) {regions : List Text} {s : Text} :
      Laid regions s → Laid (region :: regions) (gap ++ region ++ s)

/-- The texts stand in `s` at places that do not overlap, in some order. -/
def Spread (regions : List Text) (s : Text) : Prop :=
  ∃ order, order.Perm regions ∧ Laid order s

section Step

variable {token : Text} (region : Text)

/-- Replacing a token leaves the regions that wall it off where they are. -/
theorem Laid.replaceAll {order : List Text} {s : Text} (h : Laid order s) (hne : token ≠ [])
    (hf : ∀ r ∈ order, Fenced token r) (hn : ∀ r ∈ order, ¬ token <:+: r) :
    Laid order (replaceAll token region s) := by
  induction h with
  | nil s => exact .nil _
  | cons gap r _ ih =>
    rw [replaceAll_append_fenced hne region (hf r List.mem_cons_self) (hn r List.mem_cons_self)]
    exact .cons _ r (ih (fun q hq => hf q (List.mem_cons_of_mem _ hq))
      fun q hq => hn q (List.mem_cons_of_mem _ hq))

/-- Replacing a token that occurs adds its region to those that are there. -/
theorem Laid.spread_replaceAll {order : List Text} {s : Text} (h : Laid order s) (hne : token ≠ [])
    (hf : ∀ r ∈ order, Fenced token r) (hn : ∀ r ∈ order, ¬ token <:+: r)
    (hs : token <:+: s) : Spread (region :: order) (Text.replaceAll token region s) := by
  have hcut : ∀ {t : Text}, token <:+: t → ∃ a b, cut? token t = some (a, b) := by
    intro t ht
    cases hc : cut? token t with
    | none => exact absurd ht (cut?_eq_none_iff.mp hc)
    | some parts => exact ⟨parts.1, parts.2, rfl⟩
  induction h with
  | nil s =>
    obtain ⟨a, b, hc⟩ := hcut hs
    rw [replaceAll_eq_of_cut? region hne hc]
    exact ⟨[region], .refl _, .cons a region (.nil _)⟩
  | @cons gap r order s hl ih =>
    have hf' : ∀ q ∈ order, Fenced token q := fun q hq => hf q (List.mem_cons_of_mem _ hq)
    have hn' : ∀ q ∈ order, ¬ token <:+: q := fun q hq => hn q (List.mem_cons_of_mem _ hq)
    rw [replaceAll_append_fenced hne region (hf r List.mem_cons_self) (hn r List.mem_cons_self)]
    -- a token in front of `r` is replaced there, and one behind it goes on to the rest
    rcases (hf r List.mem_cons_self).infix_append hs with hg | hr | hs
    · obtain ⟨a, b, hc⟩ := hcut hg
      have he : Text.replaceAll token region gap ++ r ++ Text.replaceAll token region s =
          a ++ region ++ (Text.replaceAll token region b ++ r ++
            Text.replaceAll token region s) := by
        rw [replaceAll_eq_of_cut? region hne hc]
        simp only [List.append_assoc]
      rw [he]
      exact ⟨region :: r :: order, .refl _,
        .cons a region (.cons _ r (hl.replaceAll region hne hf' hn'))⟩
    · exact absurd hr (hn r List.mem_cons_self)
    · obtain ⟨order', hp, hl'⟩ := ih hf' hn' hs
      exact ⟨r :: order', (hp.cons r).trans (.swap region r order), .cons _ r hl'⟩

end Step

/-- If no token is missing, the regions join those that are there already. -/
theorem Laid.spread_restoreEntries {entries : List (Text × Text)} {order : List Text}
    {s out : Text} (h : Walled entries) (hl : Laid order s)
    (hf : ∀ e ∈ entries, ∀ r ∈ order, Fenced e.1 r)
    (hn : ∀ e ∈ entries, ∀ r ∈ order, ¬ e.1 <:+: r)
    (hr : restoreEntries entries s = (out, [])) : Spread (entries.map (·.2) ++ order) out := by
  induction entries generalizing s order with
  | nil =>
    cases hr
    exact ⟨order, .refl _, hl⟩
  | cons e entries ih =>
    obtain ⟨token, region⟩ := e
    rw [restoreEntries] at hr
    split at hr
    · next ho =>
      obtain ⟨order', hp, hl'⟩ := hl.spread_replaceAll region (h.ne_nil _ List.mem_cons_self)
        (hf _ List.mem_cons_self) (hn _ List.mem_cons_self) (occursIn_iff.mp ho)
      have hmem : ∀ r ∈ order', r = region ∨ r ∈ order := fun r hm =>
        List.mem_cons.mp (hp.mem_iff.mp hm)
      have hf' : ∀ f ∈ entries, ∀ r ∈ order', Fenced f.1 r := by
        intro f hm r hm'
        rcases hmem r hm' with rfl | hm'
        · exact h.fenced f (List.mem_cons_of_mem _ hm) _ List.mem_cons_self
        · exact hf f (List.mem_cons_of_mem _ hm) r hm'
      have hn' : ∀ f ∈ entries, ∀ r ∈ order', ¬ f.1 <:+: r := by
        intro f hm r hm'
        rcases hmem r hm' with rfl | hm'
        · exact h.not_infix f (List.mem_cons_of_mem _ hm) _ List.mem_cons_self
        · exact hn f (List.mem_cons_of_mem _ hm) r hm'
      obtain ⟨order'', hp', hl''⟩ := ih h.tail hl' hf' hn' hr
      exact ⟨order'', hp'.trans ((hp.append_left _).trans List.perm_middle), hl''⟩
    · cases hr

/-- If no token is missing, the regions stand in the result at places that do not overlap. -/
theorem Walled.spread_restoreEntries {entries : List (Text × Text)} (h : Walled entries)
    {s out : Text} (hr : restoreEntries entries s = (out, [])) :
    Spread (entries.map (·.2)) out := by
  have := Laid.spread_restoreEntries h (.nil s) (by simp) (by simp) hr
  simpa using this

end TwigLayout.Placeholder
