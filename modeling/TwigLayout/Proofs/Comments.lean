import TwigLayout.Proofs.Pipeline
import TwigLayout.Proofs.Spacing.Component
import TwigLayout.Proofs.Spacing.Literal
import TwigLayout.Proofs.Spacing.Shielded

/-!
# Comments of a formatted template

If the engine answers with the code it was given, formatting only changes the spacing between the
tokens of the comments. So every token is there when the comments come back, and the comments of the
result are those of the template, in their order (`comments_of_format`).
-/

namespace TwigLayout

open Text Placeholder Spacing Logged

/-! ## Reflow -/

/-- Laying out a document succeeds, and respaces the document with a line end behind it. -/
theorem Layout.exists_reflow {layout : Layout} (hl : layout.Standard)
    (hf : Route.AreNames layout.route.functions) (s : Text) :
    ∃ out, (layout.reflow s).Quiet out ∧
      Respaced (s ++ newlineOf s) (out ++ newlineOf s) := by
  obtain ⟨hn, hnne⟩ := newlineOf_cases s
  have hplain := hl.isPlain
  obtain ⟨components, n, hc⟩ := Component.exists_layout_eq_ok hplain.opening_ne_nil hnne s
  have h₁ := Component.respaced_layout hplain (blank_of_eq_space hl.componentUnit) hn hc
  have h₂ := Merge.respaced_layout hl.block hn hnne (blank_of_eq_space hl.mergeUnit) components
  have h₃ := Route.respaced_layout hf hn hnne (blank_of_eq_space hl.routeUnit)
    (Merge.layout layout.merge (newlineOf s) components).1
  refine ⟨_, ?_, h₁.trans ((h₂.trans h₃).append (.refl _))⟩
  have hcomponent : (Component.reflow layout.component (newlineOf s) s).Quiet components := by
    refine (quiet_lift hc).bind ?_
    exact (quiet_debug _ _).bind (quiet_pure components)
  have hmerge : (Merge.reflow layout.merge (newlineOf s) components).Quiet
      (Merge.layout layout.merge (newlineOf s) components).1 :=
    (quiet_debug _ _).bind (quiet_pure _)
  refine hcomponent.bind (hmerge.bind ?_)
  exact (quiet_debug _ _).bind (quiet_pure _)

/-! ## Runs -/

namespace Pipeline

variable {p : Pipeline}

/-- Hiding succeeds, and what was hidden can be brought back, if the template has no `TWIG_CS_`. -/
theorem exists_hide (hs : ∀ k, (p.supply k).WellFormed) (hmarks : p.layout.comment = .comment)
    {space : Text} {maxWidth : Int} (hrule : p.layout.inline = .of space maxWidth) {s : Text}
    (hkey : occursIn "TWIG_CS_".toList s = false) :
    ∃ parts hidden, (p.hide s).Quiet hidden ∧
      assignComments (p.supply .comment) .comment s = .ok (parts, hidden.comments) ∧
      ∀ strict,
        restore .inline strict hidden.elements hidden.code = pure (parts.flatMap shown) := by
  have hkeys : ∀ k : Kind, ¬ k.key <:+: s := Kind.not_key_infix hkey
  obtain ⟨parts, comments, hparts⟩ := exists_assign_eq_ok (hs .comment) (hkeys .comment)
    (fun _ _ => ⟨true, rfl⟩) (Comment.pieces .comment s) (Table.valid_empty .comment)
  obtain ⟨ha, _⟩ := assignComments_eq_ok (hs .comment) hparts
  have hinline : ¬ Kind.inline.key <:+: parts.flatMap shown :=
    ha.not_key_infix_shown (by decide) (by
      rw [Comment.flatMap_text_pieces]
      exact hkeys .inline)
  obtain ⟨parts', elements, hparts'⟩ := exists_assign_eq_ok (hs .inline) hinline
    (fun e t => ⟨_, Element.Rule.accepts_of space maxWidth e t⟩)
    (Element.pieces (parts.flatMap shown)) (Table.valid_empty .inline)
  obtain ⟨ha', he⟩ := assignElements_eq_ok (hs .inline) hparts'
  refine ⟨parts, ⟨parts'.flatMap shown, comments, elements⟩, ?_, hparts, fun strict => ?_⟩
  · have hc : shieldComments (p.supply .comment) p.layout.comment s =
        .ok (parts.flatMap shown, comments) := by
      rw [hmarks]
      exact bind_eq_ok.mpr ⟨_, hparts, rfl⟩
    have hi : shieldElements (p.supply .inline) p.layout.inline (parts.flatMap shown) =
        .ok (parts'.flatMap shown, elements) := by
      rw [hrule]
      exact bind_eq_ok.mpr ⟨_, hparts', rfl⟩
    refine (quiet_lift hc).bind ((quiet_debug _ _).bind ?_)
    exact (quiet_lift hi).bind ((quiet_debug _ _).bind (quiet_pure _))
  · have htext := flatMap_text_scan Element.read (parts.flatMap shown)
    have hrestore := ha'.restoreEntries_shown (by rwa [Element.pieces, htext])
    rw [Element.pieces, htext, ← he] at hrestore
    exact restore_eq_pure hrestore strict

/-- Laying out moves no comment, and all of them come back. -/
theorem exists_restore_of_respaced {supply : Supply} (hs : supply.WellFormed) {s z : Text}
    (hz : Soft z) (hkey : ¬ Kind.comment.key <:+: s) {parts : List (Piece Text)} {t : Table}
    (h : assignComments supply .comment s = .ok (parts, t)) {new : Text}
    (hr : Respaced (parts.flatMap shown ++ z) (new ++ z)) :
    ∃ out, (∀ strict, restore .comment strict t new = pure out) ∧
      (locate 0 (Comment.pieces .comment out)).map (·.text) =
        (locate 0 (Comment.pieces .comment s)).map (·.text) := by
  obtain ⟨ha, he⟩ := assignComments_eq_ok hs h
  obtain ⟨parts', rfl, hparts⟩ := exists_respelled (a := []) hz ha.numbered hr
  rw [List.map_nil, List.nil_append] at hparts
  refine ⟨parts'.flatMap Piece.text, fun strict => restore_eq_pure ?_ strict, ?_⟩
  · have hbounded : ∀ token region, .found token region ∈ parts → Bounded region := by
      intro token region hm
      obtain ⟨_, hv⟩ := ha.found token region hm
      exact Comment.bounded_of_mem_pieces hv
    have hclear : isClear [] parts' = true := by
      refine isClear_of_not_key_infix (hparts.numbered ha.numbered)
        (hparts.not_key_infix hz hbounded .comment ?_)
      rwa [ha.text, Comment.flatMap_text_pieces]
    have hrestore := restoreEntries_of_isClear [] (fun token region hm => ?_) hclear
    · rwa [hparts.filterMap_pair?, ← he] at hrestore
    · obtain ⟨i, _, htoken⟩ := (hparts.numbered ha.numbered).exists_isToken hm
      exact htoken.ne_nil
  · have hpieces : Comment.pieces .comment s = parts.map Comment.ofPart :=
      (Comment.map_ofPart_of_assign (fun _ _ => rfl) h).symm
    have hread : (Comment.read .comment).Consumes := Comment.read_consumes (.inl (by decide))
    have hscans : Scans (Comment.read .comment) none s (parts.map Comment.ofPart) := by
      rw [← hpieces]
      exact scans_scan hread s
    have hout : Comment.pieces .comment (parts'.flatMap Piece.text) = parts'.map Comment.ofPart :=
      (Comment.scans_of_respelled hz hparts hscans none).scanFrom_eq
    rw [hout, hpieces, Comment.text_locate_map_ofPart, Comment.text_locate_map_ofPart,
      hparts.filterMap_pair?]

/-- With the default settings, strict or not, no options file for the project and an engine that
answers with the code it was given, every template without `TWIG_CS_` is formatted, without a
warning about a lost token. The comments of the result are those of the template, in their order. -/
theorem comments_of_format [YamlReader] (hs : ∀ k, (p.supply k).WellFormed) {strict : Value}
    (hl : Layout.ofSettings { strict } = .ok p.layout) {t : Tree} {file : String}
    {workspace : Option String}
    (hnone : ProjectOptions.findFile t (Path.resolve
      ((workspace.filter (· != "")).getD (Path.directoryOf file))) = .ok none) {s : Text}
    (hkey : occursIn "TWIG_CS_".toList s = false) :
    ∃ out, (p.format (fun r => pure r.code) t s file workspace).Quiet out ∧
      (locate 0 (Comment.pieces .comment out)).map (·.text) =
        (locate 0 (Comment.pieces .comment s)).map (·.text) := by
  have hstandard := Layout.standard_of_ofSettings rfl hl
  have hrule : p.layout.inline = .of "twig:".toList 120 := by
    rw [← Except.ok.inj hl, Element.Rule.of, String.ofList_toList]
  have hnames : Route.AreNames p.layout.route.functions := by
    have hpath : p.layout.route.functions = ["path".toList] := by
      rw [← Except.ok.inj hl]
      rfl
    rw [hpath]
    exact Route.areNames_path
  obtain ⟨parts, hidden, hhide, hparts, hinline⟩ := exists_hide hs hstandard.comment hrule hkey
  obtain ⟨laidOut, hreflow, hrespaced⟩ :=
    Layout.exists_reflow hstandard hnames (parts.flatMap shown)
  obtain ⟨out, hout, hcomments⟩ := exists_restore_of_respaced (hs .comment)
    (soft_of_blank (newlineOf_cases _).1) (Kind.not_key_infix hkey .comment) hparts hrespaced
  refine ⟨out, ?_, hcomments⟩
  have hproject : (ProjectOptions.resolve t ((workspace.filter (· != "")).getD
      (Path.directoryOf file)) (some file)).Quiet [] := by
    refine (quiet_lift hnone).bind ?_
    exact (quiet_debug _ _).bind (quiet_pure _)
  have hfinish : (p.finish hidden hidden.code).Quiet out := by
    rw [finish, hinline]
    refine (quiet_pure _).bind (hreflow.bind ?_)
    rw [hout]
    exact quiet_pure out
  have hrequest : (p.request t file workspace hidden.code).Quiet ⟨hidden.code, _, _⟩ :=
    hproject.bind (quiet_pure _)
  have hprepare : (p.prepare t s file workspace).Quiet (hidden, ⟨hidden.code, _, _⟩) :=
    (quiet_debug _ _).bind (hhide.bind (hrequest.bind (quiet_pure _)))
  exact hprepare.bind ((quiet_pure hidden.code).bind hfinish)

theorem comments_of_format_in_literal :
    let s := "{# a #}{% set b = c|merge({ d: 1, {# e #} f: 2 }) %}{# a #}".toList
    ∃ p, ofSettings { strict := .bool true } .counting = .ok p ∧
      ∃ out, (p.format (fun r => pure r.code) .empty s "t.twig" none).Quiet out ∧
        (locate 0 (Comment.pieces .comment out)).map (·.text) =
          ["{# a #}".toList, "{# e #}".toList, "{# a #}".toList] := by
  intro s
  obtain ⟨p, hp, hs, hl⟩ :
      ∃ p, ofSettings { strict := .bool true } .counting = .ok p ∧
        (∀ k, (p.supply k).WellFormed) ∧
        Layout.ofSettings { strict := .bool true } = .ok p.layout :=
    ⟨_, rfl, fun _ => Supply.counting_wellFormed, rfl⟩
  obtain ⟨out, hrun, hcomments⟩ := @comments_of_format p _ hs (.bool true) hl .empty "t.twig" none
    (by decide +kernel) s (by decide +kernel)
  have hs : (locate 0 (Comment.pieces .comment s)).map (·.text) =
      ["{# a #}".toList, "{# e #}".toList, "{# a #}".toList] := by decide +kernel
  exact ⟨p, hp, out, hrun, hcomments.trans hs⟩

end Pipeline

end TwigLayout
