import TwigLayout.Proofs.Content.Route
import TwigLayout.Proofs.Stable.Hash

/-!
# Route calls that are laid out already

A call without a reference attribute before it is never laid out, nor is anything in front of it. So
there is still none before it in the document that was laid out, and the other calls are laid out at
the indentation of their reference attribute. Laying out such a document again leaves it as it is if
the last line of each hash shows the indentation of the reference attribute in the new document, and
only then (`layout_eq_self_iff`).
-/

namespace TwigLayout.Route

open Text

variable {style : Style} {newline reference : Text}

/-! ## Calls -/

/-- The call `c` is written as laying out writes it, at the indentation `reference`. -/
structure Call.LaidOut (style : Style) (newline reference : Text) (c : Call) (t : Text) : Prop where
  body : Hash.LaidOut newline (reference ++ style.indentUnit) (newline ++ reference) c.body
  text : t = c.function ++ '(' :: (c.route ++ (", \x7b".toList ++ (c.body ++ "\x7d)".toList)))

theorem Call.LaidOut.layout_eq {c : Call} {t : Text} (h : c.LaidOut style newline reference t)
    (hn : Blank newline) (href : Blank reference) (hu : Blank style.indentUnit) :
    c.layout style newline reference = some t := by
  obtain ⟨out, hout, hbody⟩ := h.body.layout_eq hn (href.append hu) (hn.append href)
  rw [Call.layout, hout, Option.map_some, h.text, hbody]
  simp

theorem Call.laidOut_relaid {c : Call} {out new : Text} (hv : Hash.Valued c.body)
    (hout : Hash.layout c.body (reference ++ style.indentUnit) newline = some out)
    (hnew : c.layout style newline reference = some new) :
    (c.relaid newline reference out).LaidOut style newline reference new := by
  refine ⟨Hash.laidOut_of_layout hv hout (newline ++ reference), ?_⟩
  rw [layout, hout] at hnew
  cases hnew
  simp [relaid]

/-! ## Documents -/

theorem referenceAt_eq_none_iff {s : Text} {i : Nat} :
    referenceAt style s i = none ↔ ¬ style.marker <:+: s.take i := by
  rw [referenceAt, Option.map_eq_none_iff, lastCut?_eq_none_iff]

theorem not_mem_of_referenceAt {s : Text} {i : Nat} (h : referenceAt style s i = some reference) :
    '\n' ∉ reference := by
  obtain ⟨parts, _, rfl⟩ := Option.map_eq_some_iff.mp h
  intro hm
  exact absurd (indentation_all _ _ hm) (by decide)

/-- A call behind a reference attribute has an edit unless it has no parameters. -/
theorem properties_eq_nil_of_editOf {s : Text} {f : Located Call}
    (h : editOf style newline s f = none) (href : referenceAt style s f.start = some reference) :
    Hash.properties f.value.body = [] := by
  have hnone : f.value.layout style newline reference = none := by
    cases hl : f.value.layout style newline reference with
    | none => rfl
    | some new => simp [editOf, href, hl] at h
  exact Hash.layout_eq_none_iff.mp (Option.map_eq_none_iff.mp hnone)

/-- The last line of its hash shows the indentation of a call that was laid out. -/
theorem Call.Remade.isSuffix {s : Text} {f : Located Call} {c : Call} {new : Text}
    (h : Call.Remade style newline s f c new) (href : referenceAt style s f.start = some reference)
    (hp : Hash.properties c.body ≠ []) : newline ++ reference <:+ c.body := by
  cases h with
  | same hedit => exact absurd (properties_eq_nil_of_editOf hedit href) hp
  | relaid href' _ _ _ =>
    rw [href] at href'
    cases href'
    exact List.suffix_append _ _

section Twice

variable {s t : Text}

/-- A call of the new document whose edit would change it has a reference attribute at another
indentation than before. -/
theorem replacement_eq_text (hn : Blank newline) (hnl : ['\n'] <:+ newline)
    (hu : Blank style.indentUnit) {f g : Located Call}
    (hmade : Call.Remade style newline s f g.value g.text)
    (hv : (editOf style newline s f).isSome → Hash.Valued f.value.body)
    (hbefore : ¬ style.marker <:+: s.take f.start → t.take g.start = s.take f.start)
    (hlast : ∀ reference, referenceAt style t g.start = some reference →
      Hash.properties g.value.body ≠ [] → newline ++ reference <:+ g.value.body)
    {e : Edit} (he : editOf style newline t g = some e) : e.replacement = g.text := by
  obtain ⟨i, c, new⟩ := g
  obtain ⟨reference', href', hnew'⟩ := exists_reference_of_editOf he
  obtain ⟨out', hout', _⟩ := Option.map_eq_some_iff.mp hnew'
  have hp := (Hash.layout_eq_some_iff.mp hout').1
  dsimp only at hmade hlast href' hnew' hp ⊢
  cases hmade with
  | same hedit =>
    -- its properties are the old ones, so there was no reference attribute before it, nor is now
    cases href : referenceAt style s f.start with
    | some reference => exact absurd (properties_eq_nil_of_editOf hedit href) hp
    | none =>
      have hmarker := referenceAt_eq_none_iff.mp href
      have hnone : referenceAt style t i = none := by
        rw [referenceAt_eq_none_iff, hbefore hmarker]
        exact hmarker
      rw [hnone] at href'
      cases href'
  | @relaid reference out e' href hout hnew hedit =>
    have hlaid := Call.laidOut_relaid (hv (by rw [hedit]; rfl)) hout hnew
    have heq : reference' = reference := hlaid.body.eq_of_suffix hnl (not_mem_of_referenceAt href)
      (not_mem_of_referenceAt href') (hlast reference' href' hp)
    rw [heq, hlaid.layout_eq hn (blank_of_referenceAt href) hu] at hnew'
    exact (Option.some.inj hnew').symm

/-- What stands before two calls that match is the same in both documents if no reference attribute
is in it. -/
theorem exists_remade_of_mem_locate (hf : AreWords style.functions) (hn : Blank newline)
    (hu : Blank style.indentUnit) (ht : layout style newline s = t) :
    ∀ g ∈ locate 0 (scan (Call.read style.functions) t),
      ∃ f ∈ locate 0 (scan (Call.read style.functions) s),
        Call.Remade style newline s f g.value g.text ∧
          (¬ style.marker <:+: s.take f.start → t.take g.start = s.take f.start) := by
  have hmade := rescan_layout hf hn hu s
  rw [ht] at hmade
  refine hmade.exists_before (fun a b => ¬ style.marker <:+: a → b = a) (a := []) (b := []) rfl
    (flatMap_text_scan _ s).symm (flatMap_text_scan _ t).symm (fun _ => rfl) ?_ ?_
  · intro a b c hab hm
    rw [hab fun h => hm (List.infix_append_of_infix_left h)]
  · intro f _ b value new hmade hab hm
    have hm' : ¬ style.marker <:+: s.take f.start := fun h => hm (List.infix_append_of_infix_left h)
    cases hmade with
    | same _ => rw [hab hm']
    | relaid href _ _ _ =>
      rw [referenceAt_eq_none_iff.mpr hm'] at href
      cases href

end Twice

/-- Laying out route calls twice is laying them out once exactly if the last line of each hash shows
the indentation of its reference attribute. -/
theorem layout_eq_self_iff (hf : AreWords style.functions) (hn : Blank newline)
    (hnl : ['\n'] <:+ newline) (hu : Blank style.indentUnit) {s t : Text}
    (ht : layout style newline s = t)
    (hv : ∀ f ∈ locate 0 (scan (Call.read style.functions) s),
      (editOf style newline s f).isSome → Hash.Valued f.value.body) :
    layout style newline t = t ↔
      ∀ f ∈ locate 0 (scan (Call.read style.functions) t), ∀ reference,
        referenceAt style t f.start = some reference → Hash.properties f.value.body ≠ [] →
          newline ++ reference <:+ f.value.body := by
  constructor
  · intro hself f hf' reference href hp
    have hmade := rescan_layout hf hn hu t
    rw [hself] at hmade
    exact (hmade.of_self f hf').isSuffix href hp
  intro hlast
  rw [layout_eq_replacePieces, replacePieces_eq_flatMap, flatMap_text_scan]
  intro g hg
  obtain ⟨f, hf', hmade, hbefore⟩ := exists_remade_of_mem_locate hf hn hu ht g hg
  cases he : editOf style newline t g with
  | none => rfl
  | some e => exact replacement_eq_text hn hnl hu hmade (hv f hf') hbefore (hlast g hg) he

end TwigLayout.Route
