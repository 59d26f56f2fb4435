import TwigLayout.Pipeline
import TwigLayout.Proofs.Placeholder.Region
import TwigLayout.Proofs.Reflow.Component
import TwigLayout.Proofs.Reflow.Merge
import TwigLayout.Proofs.Reflow.Route
import TwigLayout.Proofs.Text.Blank

/-!
# Runs of the pipeline

What a run that gives a result went through, and what follows for the result, whatever the formatter
answers.

1. `hide_eq_ok`, `finish_eq_ok` and `exists_of_format`: the stages of a run.
2. `spread_of_format`: a strict run loses no comment.
3. `Layout.runsIn_reflow`: laying out brings about no run of token characters.
4. `not_occursIn_of_format`: so no token of the run is left in its result, if the template has no
   `TWIG_CS_`.
-/

namespace TwigLayout

open Text Placeholder

namespace Pipeline

variable {p : Pipeline}

/-! ## Stages -/

theorem hide_eq_ok {s : Text} {hidden : Hidden} (h : (p.hide s).result = .ok hidden) :
    ∃ parts parts',
      assignComments (p.supply .comment) p.layout.comment s = .ok (parts, hidden.comments) ∧
      assignElements (p.supply .inline) p.layout.inline (parts.flatMap shown) =
        .ok (parts', hidden.elements) ∧
      hidden.code = parts'.flatMap shown := by
  obtain ⟨⟨code, comments⟩, hc, h⟩ := Logged.result_bind_eq_ok.mp h
  obtain ⟨_, _, h⟩ := Logged.result_bind_eq_ok.mp h
  obtain ⟨⟨code', elements⟩, he, h⟩ := Logged.result_bind_eq_ok.mp h
  obtain ⟨_, _, h⟩ := Logged.result_bind_eq_ok.mp h
  cases h
  obtain ⟨⟨parts, t⟩, hp, hc⟩ := bind_eq_ok.mp hc
  cases hc
  obtain ⟨⟨parts', t'⟩, hp', he⟩ := bind_eq_ok.mp he
  cases he
  exact ⟨parts, parts', hp, hp', rfl⟩

theorem finish_eq_ok {hidden : Hidden} {s out : Text}
    (h : (p.finish hidden s).result = .ok out) :
    ∃ code laidOut,
      (restore .inline p.layout.strict hidden.elements s).result = .ok code ∧
      (p.layout.reflow code).result = .ok laidOut ∧
      (restore .comment p.layout.strict hidden.comments laidOut).result = .ok out := by
  obtain ⟨code, hi, h⟩ := Logged.result_bind_eq_ok.mp h
  obtain ⟨laidOut, hr, h⟩ := Logged.result_bind_eq_ok.mp h
  exact ⟨code, laidOut, hi, hr, h⟩

/-- A run hides, and finishes some answer of the formatter. -/
theorem exists_of_format [YamlReader] {formatter : Formatter} {t : Tree} {s : Text} {file : String}
    {workspace : Option String} {out : Text}
    (h : (p.format formatter t s file workspace).result = .ok out) :
    ∃ hidden answer, (p.hide s).result = .ok hidden ∧
      (p.finish hidden answer).result = .ok out := by
  obtain ⟨⟨hidden, request⟩, hp, h⟩ := Logged.result_bind_eq_ok.mp h
  obtain ⟨answer, _, h⟩ := Logged.result_bind_eq_ok.mp h
  obtain ⟨_, _, hp⟩ := Logged.result_bind_eq_ok.mp hp
  obtain ⟨hidden', hh, hp⟩ := Logged.result_bind_eq_ok.mp hp
  obtain ⟨request', _, hp⟩ := Logged.result_bind_eq_ok.mp hp
  cases hp
  exact ⟨hidden, answer, hh, h⟩

/-! ## Comments -/

/-- A strict run loses no comment: those of the text stand in the result at places that do not
overlap, whatever the formatter answers. -/
theorem spread_of_format [YamlReader] (hs : (p.supply .comment).WellFormed)
    (hstrict : p.layout.strict = true) (hmarks : p.layout.comment = .comment)
    {formatter : Formatter} {t : Tree} {s : Text} {file : String} {workspace : Option String}
    {out : Text}
    (h : (p.format formatter t s file workspace).result = .ok out) :
    Spread ((locate 0 (Comment.pieces .comment s)).map (·.text)) out := by
  obtain ⟨hidden, answer, hh, hf⟩ := exists_of_format h
  obtain ⟨parts, _, hc, _, _⟩ := hide_eq_ok hh
  obtain ⟨_, laidOut, _, _, hr⟩ := finish_eq_ok hf
  rw [hmarks] at hc
  obtain ⟨_, he⟩ := assignComments_eq_ok hs hc
  obtain ⟨hout, hmissing⟩ := restore_result_eq_ok_iff.mp hr
  have hrestored : restoreEntries hidden.comments.entries laidOut = (out, []) :=
    Prod.ext hout (hmissing hstrict)
  rw [← regions_of_assign (fun _ _ => rfl) hc 0, ← he]
  exact (walled_comments hs hc).spread_restoreEntries hrestored

theorem spread_of_format_equal_comments :
    ∃ p, ofSettings { strict := .bool true } .counting = .ok p ∧
      (p.format (fun r => pure (r.code ++ ['\n'])) .empty "{# a #}{# a #}".toList "t.twig"
        none).result = .ok "{# a #}{# a #}\n".toList ∧
      Spread ["{# a #}".toList, "{# a #}".toList] "{# a #}{# a #}\n".toList := by
  obtain ⟨p, hp, hs, hstrict, hmarks, hrun⟩ :
      ∃ p, ofSettings { strict := .bool true } .counting = .ok p ∧
        (p.supply .comment).WellFormed ∧ p.layout.strict = true ∧ p.layout.comment = .comment ∧
        (p.format (fun r => pure (r.code ++ ['\n'])) .empty "{# a #}{# a #}".toList "t.twig"
          none).result = .ok "{# a #}{# a #}\n".toList :=
    ⟨_, rfl, Supply.counting_wellFormed, rfl, rfl, rfl⟩
  exact ⟨p, hp, hrun, spread_of_format hs hstrict hmarks hrun⟩

end Pipeline

/-! ## Reflow -/

/-- A layout with the default delimiters that indents with spaces. -/
structure Layout.Standard (layout : Layout) : Prop where
  comment : layout.comment = .comment
  expression : layout.component.expression = .expression
  block : layout.merge.block = .block
  componentUnit : ∀ c ∈ layout.component.indentUnit, c = ' '
  mergeUnit : ∀ c ∈ layout.merge.indentUnit, c = ' '
  routeUnit : ∀ c ∈ layout.route.indentUnit, c = ' '

theorem Layout.Standard.isPlain {layout : Layout} (h : layout.Standard) :
    Component.IsPlain layout.component.expression := by
  rw [h.expression]
  exact ⟨'{', ['{'], rfl, by decide⟩

theorem EngineSettings.indentUnit_eq_ok {e : EngineSettings} {unit : Text}
    (h : e.indentUnit = .ok unit) : ∀ c ∈ unit, c = ' ' := by
  rw [indentUnit] at h
  split at h
  · split at h
    · cases h
    · split at h
      · cases h
      · cases h
        exact fun c hc => List.eq_of_mem_replicate hc
  · cases h
    exact fun c hc => List.eq_of_mem_replicate hc
  · cases h

theorem Route.styleOf_eq_ok {functions attr : Value} {unit : Text} {style : Route.Style}
    (h : styleOf functions attr unit = .ok style) : style.indentUnit = unit := by
  unfold styleOf at h
  split at h
  · obtain ⟨items, _, h⟩ := bind_eq_ok.mp h
    obtain ⟨names, _, h⟩ := bind_eq_ok.mp h
    cases h
    rfl
  · cases h
    rfl

/-- Settings with the default delimiters, whatever else they set. -/
theorem Layout.standard_of_ofSettings {settings : Settings} {layout : Layout}
    (hd : settings.delimitersOrDefault = .ok {}) (h : ofSettings settings = .ok layout) :
    layout.Standard := by
  obtain ⟨_, _, h⟩ := bind_eq_ok.mp h
  obtain ⟨engine, _, h⟩ := bind_eq_ok.mp h
  obtain ⟨unit, hunit, h⟩ := bind_eq_ok.mp h
  obtain ⟨d, hd', h⟩ := bind_eq_ok.mp h
  obtain ⟨comment, hcomment, h⟩ := bind_eq_ok.mp h
  obtain ⟨component, hcomponent, h⟩ := bind_eq_ok.mp h
  obtain ⟨merge, hmerge, h⟩ := bind_eq_ok.mp h
  obtain ⟨functions, _, h⟩ := bind_eq_ok.mp h
  obtain ⟨route, hroute, h⟩ := bind_eq_ok.mp h
  cases h
  rw [hd] at hd'
  cases hd'
  cases hcomment
  cases hcomponent
  cases hmerge
  have hspace := EngineSettings.indentUnit_eq_ok hunit
  refine ⟨rfl, rfl, rfl, hspace, hspace, ?_⟩
  rw [Route.styleOf_eq_ok hroute]
  exact hspace

theorem newlineOf_cases (s : Text) : Blank (newlineOf s) ∧ newlineOf s ≠ [] := by
  rw [newlineOf]
  split
  · exact ⟨.of_all (by decide), by decide⟩
  · exact ⟨.of_all (by decide), by decide⟩

theorem blank_of_eq_space {unit : Text} (h : ∀ c ∈ unit, c = ' ') : Blank unit := by
  intro c hc
  rw [h c hc]
  decide

theorem isTokenChar_newlineOf (s : Text) : ∀ c ∈ newlineOf s, isTokenChar c = false := by
  rw [newlineOf]
  split
  · exact forall_of_any (by decide)
  · exact forall_of_any (by decide)

theorem isTokenChar_of_eq_space {unit : Text} (h : ∀ c ∈ unit, c = ' ') :
    ∀ c ∈ unit, isTokenChar c = false := by
  intro c hc
  rw [h c hc]
  decide

/-- Laying out a document brings about no run of token characters. -/
theorem Layout.runsIn_reflow {layout : Layout} (hl : layout.Standard) {s out : Text}
    (h : (layout.reflow s).result = .ok out) : RunsIn isTokenChar out s := by
  have hn := isTokenChar_newlineOf s
  obtain ⟨components, hc, h⟩ := Logged.result_bind_eq_ok.mp h
  obtain ⟨merges, hm, h⟩ := Logged.result_bind_eq_ok.mp h
  obtain ⟨⟨components', n⟩, hc, hr⟩ := Logged.result_bind_eq_ok.mp hc
  cases hr
  cases hm
  cases h
  have h₁ := Component.runsIn_layout hl.isPlain (isTokenChar_of_eq_space hl.componentUnit) hn hc
  have h₂ := Merge.runsIn_layout (s := components) Hash.outside_isTokenChar hl.block
    (isTokenChar_of_eq_space hl.mergeUnit) hn
  have h₃ := Route.runsIn_layout (s := (Merge.layout layout.merge (newlineOf s) components).1)
    Hash.outside_isTokenChar (isTokenChar_of_eq_space hl.routeUnit) hn
  exact (h₃.trans h₂).trans h₁

/-! ## Tokens -/

namespace Pipeline

/-- No token of a run is left in its result, whatever the formatter answers, if the template has no
`TWIG_CS_` and the delimiters are the default ones. -/
theorem not_occursIn_of_format [YamlReader] {p : Pipeline} (hs : ∀ k, (p.supply k).WellFormed)
    {settings : Settings} (hd : settings.delimitersOrDefault = .ok {})
    (hl : Layout.ofSettings settings = .ok p.layout) {formatter : Formatter} {t : Tree} {s : Text}
    (hkey : occursIn "TWIG_CS_".toList s = false) {file : String} {workspace : Option String}
    {out : Text} (h : (p.format formatter t s file workspace).result = .ok out) :
    ∃ hidden, (p.hide s).result = .ok hidden ∧
      ∀ token ∈ hidden.comments.tokens ++ hidden.elements.tokens, occursIn token out = false := by
  have hstandard := Layout.standard_of_ofSettings hd hl
  obtain ⟨hidden, answer, hh, hf⟩ := exists_of_format h
  obtain ⟨parts, parts', hc, he, _⟩ := hide_eq_ok hh
  obtain ⟨code, laidOut, hcode, hreflow, hout⟩ := finish_eq_ok hf
  obtain ⟨hcode, _⟩ := restore_result_eq_ok_iff.mp hcode
  obtain ⟨hout, _⟩ := restore_result_eq_ok_iff.mp hout
  rw [hstandard.comment] at hc
  refine ⟨hidden, hh, fun token hm => ?_⟩
  rw [occursIn_eq_false_iff]
  rcases List.mem_append.mp hm with hm | hm
  · obtain ⟨e, hmem, rfl⟩ := List.mem_map.mp hm
    rw [← hout]
    exact (walled_comments (hs .comment) hc).not_infix_restoreEntries laidOut e hmem
  · obtain ⟨e, hmem, rfl⟩ := List.mem_map.mp hm
    obtain ⟨i, htoken⟩ : ∃ i, IsToken .inline i e.1 := by
      obtain ⟨ha, hentries⟩ := assignElements_eq_ok (hs .inline) he
      rw [hentries] at hmem
      exact ha.isToken hmem
    have hcodeFree : ¬ e.1 <:+: code := by
      rw [← hcode]
      exact (walled_elements (hs .inline) he).not_infix_restoreEntries answer e hmem
    have hlaidFree : ¬ e.1 <:+: laidOut := fun hi =>
      hcodeFree (Layout.runsIn_reflow hstandard hreflow e.1 htoken.isTokenChar hi)
    have hsFree : ¬ e.1 <:+: s := fun hi =>
      Kind.not_key_infix hkey .inline (htoken.key_infix.trans hi)
    -- comments are walls to an element's token as well, and have no `TWIG_CS_`
    have hregion := fun f hf => region_of_mem_comments (e := f) (hs .comment) hc hf
    rw [← hout]
    exact not_infix_restoreEntries (walled_comments (hs .comment) hc).ne_nil
      (fun f hf => (hregion f hf).1.fenced htoken)
      (fun f hf hi => hsFree (hi.trans (hregion f hf).2)) hlaidFree

theorem not_occursIn_of_format_overlap :
    ∃ p, ofSettings {} .counting = .ok p ∧
      (p.format (fun r => pure (r.code.take 27 ++ r.code.dropLast)) .empty
        "<a>x</a>{# y #}".toList "t.twig" none).result =
        .ok "<a>x</a>TWIG_CS_INLINE_0_aaaaaaaa____TWIG_CS_COMMENT_0_aaaaaaaa_".toList ∧
      ∃ hidden, (p.hide "<a>x</a>{# y #}".toList).result = .ok hidden ∧
        ∀ token ∈ hidden.comments.tokens ++ hidden.elements.tokens, occursIn token
          "<a>x</a>TWIG_CS_INLINE_0_aaaaaaaa____TWIG_CS_COMMENT_0_aaaaaaaa_".toList = false := by
  obtain ⟨p, hp, hs, hl, hrun⟩ :
      ∃ p, ofSettings {} .counting = .ok p ∧ (∀ k, (p.supply k).WellFormed) ∧
        Layout.ofSettings {} = .ok p.layout ∧
        (p.format (fun r => pure (r.code.take 27 ++ r.code.dropLast)) .empty
          "<a>x</a>{# y #}".toList "t.twig" none).result =
          .ok "<a>x</a>TWIG_CS_INLINE_0_aaaaaaaa____TWIG_CS_COMMENT_0_aaaaaaaa_".toList :=
    ⟨_, rfl, fun _ => Supply.counting_wellFormed, rfl, rfl⟩
  exact ⟨p, hp, hrun, not_occursIn_of_format hs rfl hl (by decide +kernel) hrun⟩

end Pipeline

end TwigLayout
