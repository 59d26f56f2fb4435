import TwigLayout.Proofs.Reflow.Route
import TwigLayout.Proofs.Text.Rescan

/-!
# Edits from the last to the first

Edits are computed on the document as it is and applied from its end. The text before the edits that
are done is still that of the document, so each edit finds its place where it was computed.

1. `applyEdits_eq_append`: the invariant. Once all edits from an offset on are done, the document
   up to the offset stands in front of them.
2. `applyEdits_eq_splice`: hence edits in order do what replacing all of them at once does.
3. `layout_eq_splice`: the edits of a document are in order, so this is how it is laid out.
-/

namespace TwigLayout

open Text

/-! ## The places of findings -/

namespace Text

variable {α : Type} {read : Reader α}

theorem ne_nil_of_mem_scanFrom {skip : Nat} {last : Option Char} {s : Text} {value : α} {t : Text}
    (h : .found value t ∈ scanFrom read skip last s) : t ≠ [] := by
  fun_induction scanFrom read skip last s with
  | case1 => exact absurd h List.not_mem_nil
  | case2 _ _ _ _ ih => exact ih h
  | case3 last c s _ ih => exact ih (by simpa using h)
  | case4 last c s v rest _ more ih =>
    rcases List.mem_cons.mp h with he | h
    · cases he
      exact List.cons_ne_nil c _
    · exact ih h

theorem le_start_of_mem_locate {i : Nat} {pieces : List (Piece α)} {f : Located α}
    (h : f ∈ locate i pieces) : i ≤ f.start := by
  fun_induction locate i pieces with
  | case1 => exact absurd h List.not_mem_nil
  | case2 i _ _ ih => exact Nat.le_of_succ_le (ih h)
  | case3 i value t _ ih =>
    rcases List.mem_cons.mp h with rfl | h
    · exact Nat.le_refl i
    · exact Nat.le_of_add_right_le (ih h)

/-- No finding starts before the end of the one before it. -/
theorem pairwise_locate (i : Nat) (pieces : List (Piece α)) :
    (locate i pieces).Pairwise fun f g => f.stop ≤ g.start := by
  fun_induction locate i pieces with
  | case1 => exact .nil
  | case2 _ _ _ ih => exact ih
  | case3 _ _ _ _ ih => exact .cons (fun _ hg => le_start_of_mem_locate hg) ih

/-- A finding takes at least one character, and it ends inside of the text. -/
theorem start_lt_stop_of_mem_locate {s : Text} {f : Located α} (h : f ∈ locate 0 (scan read s)) :
    f.start < f.stop ∧ f.stop ≤ s.length := by
  have hpos := List.length_pos_iff.mpr (ne_nil_of_mem_scanFrom (mem_of_mem_locate h))
  obtain ⟨a, b, hs, ha⟩ := exists_append_of_mem_locate (a := []) h
  rw [List.nil_append, flatMap_text_scan] at hs
  rw [Located.stop, hs, List.length_append, List.length_append]
  omega

end Text

namespace Route

/-! ## Applying edits -/

section Apply

variable {es : List Edit} {s : Text}

/-- An edit leaves what stands behind it in its place. -/
theorem Edit.apply_take_append {e : Edit} (hle : e.start ≤ e.stop) (hstop : e.stop ≤ s.length)
    (t : Text) : e.apply (s.take e.stop ++ t) = s.take e.start ++ e.replacement ++ t := by
  have hlength : (s.take e.stop).length = e.stop := List.length_take_of_le hstop
  have htake : (s.take e.stop ++ t).take e.start = s.take e.start := by
    rw [List.take_append_of_le_length (by rw [hlength]; exact hle), List.take_take,
      Nat.min_eq_left hle]
  rw [Edit.apply, htake, List.drop_left' hlength]

/-- With all edits from an offset on applied, the text up to the offset is still there. -/
theorem applyEdits_eq_append (hdisjoint : es.Pairwise fun e f => e.stop ≤ f.start)
    (hbounds : ∀ e ∈ es, e.start ≤ e.stop ∧ e.stop ≤ s.length) {offset : Nat}
    (hoffset : ∀ e ∈ es, offset ≤ e.start) :
    applyEdits es s = s.take offset ++ splice offset es (s.drop offset) := by
  induction es generalizing offset with
  | nil => exact (List.take_append_drop offset s).symm
  | cons e es ih =>
    obtain ⟨hafter, hdisjoint⟩ := List.pairwise_cons.mp hdisjoint
    obtain ⟨⟨hle, hstop⟩, hbounds⟩ := List.forall_mem_cons.mp hbounds
    have hstart : offset ≤ e.start := hoffset e List.mem_cons_self
    -- the document from the offset on, up to the edit
    have htake : s.take e.start = s.take offset ++ (s.drop offset).take (e.start - offset) := by
      rw [← List.take_add, Nat.add_sub_cancel' hstart]
    have hdrop : (s.drop offset).drop (e.stop - offset) = s.drop e.stop := by
      rw [List.drop_drop, Nat.add_sub_cancel' (Nat.le_trans hstart hle)]
    calc applyEdits (e :: es) s = e.apply (applyEdits es s) := rfl
      _ = e.apply (s.take e.stop ++ splice e.stop es (s.drop e.stop)) := by
        rw [ih hdisjoint hbounds hafter]
      _ = s.take e.start ++ e.replacement ++ splice e.stop es (s.drop e.stop) :=
        Edit.apply_take_append hle hstop _
      _ = s.take offset ++ splice offset (e :: es) (s.drop offset) := by
        rw [splice, hdrop, htake, List.append_assoc, List.append_assoc, List.append_assoc]

/-- Edits in order, applied from the last to the first, are replacements made all at once. -/
theorem applyEdits_eq_splice (hdisjoint : es.Pairwise fun e f => e.stop ≤ f.start)
    (hbounds : ∀ e ∈ es, e.start ≤ e.stop ∧ e.stop ≤ s.length) :
    applyEdits es s = splice 0 es s :=
  applyEdits_eq_append hdisjoint hbounds fun e _ => Nat.zero_le e.start

end Apply

/-! ## The edits of a document -/

section Document

variable (style : Style) (newline s : Text)

theorem pairwise_edits : (edits style newline s).Pairwise fun e f => e.stop ≤ f.start := by
  refine (pairwise_locate 0 _).filterMap _ fun f g hfg e he e' he' => ?_
  obtain ⟨_, hstop, _⟩ := editOf_eq_some he
  obtain ⟨hstart, _⟩ := editOf_eq_some he'
  rw [hstop, hstart]
  exact hfg

theorem start_lt_stop_of_mem_edits :
    ∀ e ∈ edits style newline s, e.start < e.stop ∧ e.stop ≤ s.length := by
  intro e he
  obtain ⟨f, hf, he⟩ := List.mem_filterMap.mp he
  obtain ⟨hstart, hstop, _⟩ := editOf_eq_some he
  rw [hstart, hstop]
  exact start_lt_stop_of_mem_locate hf

/-- The edits of a document are in the order of their places, none overlaps another one, and each
takes characters of the document. The document is laid out as if all of them were made at once: the
text between them stays, and each replacement stands in the place of its call. -/
theorem layout_eq_splice :
    (edits style newline s).Pairwise (fun e f => e.stop ≤ f.start) ∧
      (∀ e ∈ edits style newline s, e.start < e.stop ∧ e.stop ≤ s.length) ∧
      layout style newline s = splice 0 (edits style newline s) s := by
  have hdisjoint := pairwise_edits style newline s
  have hbounds := start_lt_stop_of_mem_edits style newline s
  exact ⟨hdisjoint, hbounds,
    applyEdits_eq_splice hdisjoint fun e he => (hbounds e he).imp_left Nat.le_of_lt⟩

/-- One call gets longer and one gets shorter, with an empty one between them that has no edit. -/
theorem layout_eq_splice_resized :
    let s := ("<a href=\"\x7b\x7b path('a', \x7bx: 1, y: 2\x7d) \x7d\x7d\">\n" ++
      "  path('b', \x7b\x7d) path('c',      \x7b        'z':       3\x7d  )").toList
    let longer : Edit := ⟨12, 35, "path('a', \x7b\n    'x': 1,\n    'y': 2\n\x7d)".toList⟩
    let shorter : Edit := ⟨57, 97, "path('c', \x7b\n    'z':       3\n\x7d)".toList⟩
    longer ∈ edits .default "\n".toList s ∧ shorter ∈ edits .default "\n".toList s ∧
      longer.stop ≤ shorter.start ∧ longer.start < longer.stop ∧ shorter.stop ≤ s.length ∧
      layout .default "\n".toList s = splice 0 [longer, shorter] s := by
  intro s longer shorter
  have hedits : edits .default "\n".toList s = [longer, shorter] := by decide +kernel
  obtain ⟨hdisjoint, hbounds, hlayout⟩ := layout_eq_splice .default "\n".toList s
  rw [hedits] at hdisjoint hbounds hlayout ⊢
  have hlonger : longer ∈ [longer, shorter] := List.mem_cons_self
  have hshorter : shorter ∈ [longer, shorter] := List.mem_cons_of_mem _ List.mem_cons_self
  exact ⟨hlonger, hshorter, (List.pairwise_cons.mp hdisjoint).1 shorter List.mem_cons_self,
    (hbounds longer hlonger).1, (hbounds shorter hshorter).2, hlayout⟩

end Document

end Route

end TwigLayout
