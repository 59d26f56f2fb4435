import TwigLayout.Proofs.Comments
import TwigLayout.Proofs.Placeholder.Draws

/-!
# Comments are hidden from the engine

`Comment.Regions` says which comments a text has, without the reader: the first opening marker is
closed by the first closing marker behind it, and the search goes on behind that one.

1. `Comment.regions_iff`: the comments that a scan finds are those of the text, and no others.
2. `Numbered.exists_of_flatMap_shown`: where a text with tokens shows two characters that no token
   has, they are beside one another in the text that it stands for.
3. `Numbered.comment_of_shown`: so no comment comes about when tokens take the place of regions, and
   if the regions are the comments, none is left (`not_comment_of_assignComments`).
4. `Pipeline.concealed_of_prepare`: the engine is never asked to format a comment.
-/

namespace TwigLayout

open Text Placeholder

namespace Comment

/-! ## The comments of a text -/

/-- The comments of a text, from the left. -/
inductive Regions : Text → List Text → Prop
  /-- Behind no opening marker there is a closing one. -/
  | none {s : Text} : (∀ body, ¬ ['{', '#'] ++ body ++ ['#', '}'] <:+: s) → Regions s []
  /-- No opening marker starts in the gap before the first comment, and no closing marker starts in
  its body. -/
  | some {gap body rest : Text} {regions : List Text} : ¬ ['{', '#'] <:+: gap ++ ['{'] →
      ¬ ['#', '}'] <:+: body ++ ['#'] → Regions rest regions →
      Regions (gap ++ ['{', '#'] ++ (body ++ ['#', '}'] ++ rest))
        ((['{', '#'] ++ body ++ ['#', '}']) :: regions)

variable {s : Text}

/-- A text has its comments in one way only. -/
theorem Regions.eq {regions regions' : List Text} (h : Regions s regions)
    (h' : Regions s regions') : regions = regions' := by
  induction h generalizing regions' with
  | none hnone =>
    cases h' with
    | none _ => rfl
    | @some gap body rest _ _ _ _ =>
      exact absurd ⟨gap, rest, by simp⟩ (hnone body)
  | @some gap body rest regions hgap hbody _ ih =>
    have hopen : cut? ['{', '#'] (gap ++ ['{', '#'] ++ (body ++ ['#', '}'] ++ rest)) =
        .some (gap, body ++ ['#', '}'] ++ rest) := cut?_append_append (by decide) hgap _
    have hclose : cut? ['#', '}'] (body ++ ['#', '}'] ++ rest) = .some (body, rest) :=
      cut?_append_append (by decide) hbody _
    generalize hs : gap ++ ['{', '#'] ++ (body ++ ['#', '}'] ++ rest) = s at h' hopen
    cases h' with
    | none hnone =>
      refine absurd ⟨gap, rest, ?_⟩ (hnone body)
      rw [← hs]
      simp
    | @some gap' body' rest' regions' hgap' hbody' hrest' =>
      rw [cut?_append_append (by decide) hgap'] at hopen
      obtain ⟨rfl, hinner⟩ := Prod.mk.inj (Option.some.inj hopen)
      rw [← hinner, cut?_append_append (by decide) hbody'] at hclose
      obtain ⟨rfl, rfl⟩ := Prod.mk.inj (Option.some.inj hclose)
      rw [ih hrest']

theorem regions_cons {c : Char} {regions : List Text}
    (hc : ∀ last, read .comment last (c :: s) = Option.none) (h : Regions s regions) :
    Regions (c :: s) regions := by
  have hfirst : ∀ inner, c :: s = '{' :: '#' :: inner → ¬ ['#', '}'] <:+: inner :=
    read_eq_none_iff.mp (hc Option.none)
  cases h with
  | none hnone =>
    refine .none fun body hi => ?_
    rcases List.infix_cons_iff.mp hi with ⟨t, ht⟩ | hi
    · exact hfirst (body ++ ['#', '}'] ++ t) (by simpa using ht.symm) ⟨body, t, rfl⟩
    · exact hnone body hi
  | @some gap body rest _ hgap hbody hrest =>
    refine @Regions.some (c :: gap) body rest _ (fun hi => ?_) hbody hrest
    rcases List.infix_cons_iff.mp hi with hp | hi
    · -- the marker at the start would be closed by the end of the comment
      obtain ⟨d, gap, rfl⟩ : ∃ d u, gap = d :: u := by
        cases gap with
        | nil => exact absurd hp (by simp)
        | cons d u => exact ⟨d, u, rfl⟩
      obtain ⟨t, ht⟩ := hp
      obtain ⟨rfl, rfl, _⟩ : c = '{' ∧ d = '#' ∧ _ := by simpa using ht.symm
      refine hfirst (gap ++ ['{', '#'] ++ (body ++ ['#', '}'] ++ rest)) (by simp) ?_
      exact ⟨gap ++ ['{', '#'] ++ body, rest, by simp⟩
    · exact hgap hi

/-- A scan finds the comments of the text. -/
theorem regions_of_scans {last : Option Char} {pieces : List (Piece Unit)}
    (h : Scans (read .comment) last s pieces) (i : Nat) :
    Regions s ((locate i pieces).map (·.text)) := by
  induction h generalizing i with
  | nil => exact .none fun body hi => absurd (List.infix_nil.mp hi) (by simp)
  | plain hr _ ih => exact regions_cons (fun _ => hr) (ih (i + 1))
  | @found last value t rest pieces _ hr _ ih =>
    obtain ⟨⟨body, rfl, hbody⟩, _⟩ := read_append hr
    have hrest := @Regions.some [] body rest _ (by decide) hbody
      (ih (i + ('{' :: '#' :: (body ++ ['#', '}'])).length))
    simpa [locate] using hrest

/-- The comments that a scan finds are those of the text, and no others. -/
theorem regions_iff {regions : List Text} :
    Regions s regions ↔ regions = (locate 0 (pieces .comment s)).map (·.text) := by
  have hscan := regions_of_scans (scans_scan (read_consumes (.inl (by decide))) s) 0
  constructor
  · exact fun h => h.eq hscan
  · rintro rfl
    exact hscan

end Comment

/-! ## Texts with tokens -/

namespace Placeholder

variable {k : Kind} {n : Nat} {parts : List (Piece Text)}

/-- A character that no token has stands behind a token. -/
theorem exists_append_of_isToken {i : Nat} {token s x y : Text}
    (h : IsToken k i token) {c : Char} (hc : isTokenChar c = false)
    (he : token ++ s = x ++ c :: y) : ∃ x', x = token ++ x' ∧ s = x' ++ c :: y := by
  rcases List.append_eq_append_iff.mp he with ⟨x', hx, hs⟩ | ⟨z, ht, hs⟩
  · exact ⟨x', hx, hs⟩
  · cases z with
    | nil => exact ⟨[], by simpa using ht.symm, hs.symm⟩
    | cons d z =>
      obtain ⟨rfl, _⟩ := List.cons.inj hs
      exact absurd (ht ▸ List.mem_append_right x List.mem_cons_self) (h.not_mem hc)

/-- A character that no token has and that a text with tokens shows is a plain one. -/
theorem Numbered.exists_plain_of_shown (h : Numbered k n parts) {c : Char}
    (hc : isTokenChar c = false) {x y : Text} (he : parts.flatMap shown = x ++ c :: y) :
    ∃ before after m, parts = before ++ .plain c :: after ∧ before.flatMap shown = x ∧
      after.flatMap shown = y ∧ Numbered k m after := by
  induction parts generalizing n x with
  | nil => simp at he
  | cons part parts ih =>
    cases part with
    | plain d =>
      have he' : d :: parts.flatMap shown = x ++ c :: y := he
      cases x with
      | nil =>
        obtain ⟨rfl, rfl⟩ := List.cons.inj he'
        exact ⟨[], parts, n, rfl, rfl, rfl, h⟩
      | cons e x =>
        obtain ⟨rfl, hrest⟩ := List.cons.inj he'
        obtain ⟨before, after, m, rfl, rfl, hy, hm⟩ := ih (n := n) h hrest
        exact ⟨.plain d :: before, after, m, rfl, rfl, hy, hm⟩
    | found token region =>
      obtain ⟨htoken, hn⟩ := h
      have he' : token ++ parts.flatMap shown = x ++ c :: y := he
      obtain ⟨x, rfl, hrest⟩ := exists_append_of_isToken htoken hc he'
      obtain ⟨before, after, m, rfl, rfl, hy, hm⟩ := ih hn hrest
      exact ⟨.found token region :: before, after, m, rfl, rfl, hy, hm⟩

/-- Two characters that no token has stand beside one another in the text that a text with tokens
stands for, if they do in what it shows. -/
theorem Numbered.exists_of_flatMap_shown (h : Numbered k n parts) {c d : Char}
    (hc : isTokenChar c = false) (hd : isTokenChar d = false) {x y : Text}
    (he : parts.flatMap shown = x ++ c :: d :: y) :
    ∃ before after m, parts = before ++ .plain c :: .plain d :: after ∧
      after.flatMap shown = y ∧ Numbered k m after := by
  obtain ⟨before, rest, _, rfl, _, hrest, hm⟩ := h.exists_plain_of_shown hc he
  obtain ⟨between, after, m, rfl, hnil, hafter, hm'⟩ :=
    hm.exists_plain_of_shown (x := []) hd hrest
  -- a token between them would show
  cases between with
  | nil => exact ⟨before, after, m, rfl, hafter, hm'⟩
  | cons part between =>
    cases part with
    | plain e => cases hnil
    | found token region =>
      exact absurd (List.append_eq_nil_iff.mp hnil).1 hm.1.ne_nil

/-- A comment that a text with tokens shows opens with plain characters, and is closed in the text
that it stands for. -/
theorem Numbered.comment_of_shown (h : Numbered k n parts) {body : Text}
    (hi : ['{', '#'] ++ body ++ ['#', '}'] <:+: parts.flatMap shown) :
    ∃ before after, parts = before ++ .plain '{' :: .plain '#' :: after ∧
      ['#', '}'] <:+: after.flatMap Piece.text := by
  obtain ⟨a, b, he⟩ := hi
  have hopen : parts.flatMap shown = a ++ '{' :: '#' :: (body ++ '#' :: '}' :: b) := by
    rw [← he]
    simp
  obtain ⟨before, after, m, rfl, hafter, hm⟩ :=
    h.exists_of_flatMap_shown (by decide) (by decide) hopen
  obtain ⟨between, rest, _, rfl, _, _⟩ :=
    hm.exists_of_flatMap_shown (by decide) (by decide) hafter
  refine ⟨before, _, rfl, between.flatMap Piece.text, rest.flatMap Piece.text, ?_⟩
  simp [Piece.text]

/-- No comment comes about when tokens take the place of regions. -/
theorem Numbered.comment_infix_text (h : Numbered k n parts) {body : Text}
    (hi : ['{', '#'] ++ body ++ ['#', '}'] <:+: parts.flatMap shown) :
    ∃ body, ['{', '#'] ++ body ++ ['#', '}'] <:+: parts.flatMap Piece.text := by
  obtain ⟨before, after, rfl, u, v, he⟩ := h.comment_of_shown hi
  refine ⟨u, before.flatMap Piece.text, v, ?_⟩
  rw [List.flatMap_append, List.flatMap_cons, List.flatMap_cons, ← he]
  simp [Piece.text]

/-- With tokens in the place of its comments, a text has none. -/
theorem not_comment_of_assignComments {supply : Supply} (hs : supply.WellFormed) {s : Text}
    {t : Table} (h : assignComments supply .comment s = .ok (parts, t)) (body : Text) :
    ¬ ['{', '#'] ++ body ++ ['#', '}'] <:+: parts.flatMap shown := by
  intro hi
  obtain ⟨ha, _⟩ := assignComments_eq_ok hs h
  obtain ⟨before, after, rfl, hclose⟩ := ha.numbered.comment_of_shown hi
  have hscans : Scans (Comment.read .comment) none s
      ((before ++ .plain '{' :: .plain '#' :: after).map Comment.ofPart) := by
    rw [Comment.map_ofPart_of_assign (fun _ _ => rfl) h]
    exact scans_scan (Comment.read_consumes (.inl (by decide))) s
  rw [List.map_append, List.map_cons] at hscans
  obtain ⟨last, hnone⟩ := hscans.exists_read_eq_none
  refine Comment.read_eq_none_iff.mp hnone ((after.map Comment.ofPart).flatMap Piece.text) rfl ?_
  rwa [Comment.flatMap_text_map_ofPart]

end Placeholder

/-! ## Runs -/

namespace Pipeline

variable {p : Pipeline}

theorem prepare_eq_ok_iff [YamlReader] {t : Tree} {s : Text} {file : String}
    {workspace : Option String} {hidden : Hidden} {request : Request} :
    (p.prepare t s file workspace).result = .ok (hidden, request) ↔
      (p.hide s).result = .ok hidden ∧
        (p.request t file workspace hidden.code).result = .ok request := by
  constructor
  · intro h
    obtain ⟨_, _, h⟩ := Logged.result_bind_eq_ok.mp h
    obtain ⟨hidden', hhide, h⟩ := Logged.result_bind_eq_ok.mp h
    obtain ⟨request', hrequest, h⟩ := Logged.result_bind_eq_ok.mp h
    cases h
    exact ⟨hhide, hrequest⟩
  · rintro ⟨hhide, hrequest⟩
    refine Logged.result_bind_eq_ok.mpr ⟨(), rfl, ?_⟩
    refine Logged.result_bind_eq_ok.mpr ⟨hidden, hhide, ?_⟩
    exact Logged.result_bind_eq_ok.mpr ⟨request, hrequest, rfl⟩

theorem code_of_request [YamlReader] {t : Tree} {file : String} {workspace : Option String}
    {code : Text} {request : Request} (h : (p.request t file workspace code).result = .ok request) :
    request.code = code := by
  obtain ⟨_, _, h⟩ := Logged.result_bind_eq_ok.mp h
  cases h
  rfl

/-- The draws in the window of every token that hiding asks for differ: first those for the comments
of a text, then those for the elements of what it shows without them. -/
structure Differs (p : Pipeline) (s : Text) : Prop where
  comments : Table.Differs (p.supply .comment) (.empty Kind.comment.label)
    (requestsOf s (fun _ _ => .ok true) (Comment.pieces p.layout.comment s))
  elements : ∀ code comments, shieldComments (p.supply .comment) p.layout.comment s =
      .ok (code, comments) → Table.Differs (p.supply .inline) (.empty Kind.inline.label)
    (requestsOf code p.layout.inline.accepts (Element.pieces code))

/-- Hiding succeeds for every text whose draws differ. -/
theorem exists_hide_of_differs (hs : ∀ k, (p.supply k).WellFormed) {space : Text} {maxWidth : Int}
    (hrule : p.layout.inline = .of space maxWidth) {s : Text} (hd : p.Differs s) :
    ∃ hidden, (p.hide s).result = .ok hidden := by
  obtain ⟨parts, comments, hparts⟩ := exists_assign_of_differs (hs .comment)
    (fun _ _ => ⟨true, rfl⟩) hd.comments
  have hcomments : shieldComments (p.supply .comment) p.layout.comment s =
      .ok (parts.flatMap shown, comments) := bind_eq_ok.mpr ⟨_, hparts, rfl⟩
  obtain ⟨parts', elements, hparts'⟩ := exists_assign_of_differs (hs .inline)
    (fun e t => ⟨_, hrule ▸ Element.Rule.accepts_of space maxWidth e t⟩)
    (hd.elements _ _ hcomments)
  have helements : shieldElements (p.supply .inline) p.layout.inline (parts.flatMap shown) =
      .ok (parts'.flatMap shown, elements) := bind_eq_ok.mpr ⟨_, hparts', rfl⟩
  refine ⟨⟨parts'.flatMap shown, comments, elements⟩, ?_⟩
  refine Logged.result_bind_eq_ok.mpr ⟨_, hcomments, ?_⟩
  refine Logged.result_bind_eq_ok.mpr ⟨(), rfl, ?_⟩
  refine Logged.result_bind_eq_ok.mpr ⟨_, helements, ?_⟩
  exact Logged.result_bind_eq_ok.mpr ⟨(), rfl, rfl⟩

/-- The engine is not asked to format a comment, and the comments of the template are in the table
in their order. Hiding them succeeds if the template has no `TWIG_CS_`, and whatever it has if the
draws differ. -/
theorem concealed_of_prepare [YamlReader] (hs : ∀ k, (p.supply k).WellFormed)
    (hmarks : p.layout.comment = .comment) (s : Text) :
    (∀ (t : Tree) (file : String) (workspace : Option String) (hidden : Hidden)
        (request : Request), (p.prepare t s file workspace).result = .ok (hidden, request) →
      (∀ body, ¬ "\x7b#".toList ++ body ++ "#\x7d".toList <:+: request.code) ∧
        ∀ regions, Comment.Regions s regions ↔ regions = hidden.comments.entries.map (·.2)) ∧
    ∀ space maxWidth, p.layout.inline = .of space maxWidth →
      occursIn "TWIG_CS_".toList s = false ∨ p.Differs s →
        ∃ hidden, (p.hide s).result = .ok hidden := by
  refine ⟨fun t file workspace hidden request h => ?_, fun space maxWidth hrule h => ?_⟩
  · obtain ⟨hhide, hrequest⟩ := prepare_eq_ok_iff.mp h
    obtain ⟨parts, parts', hc, he, hshown⟩ := hide_eq_ok hhide
    rw [hmarks] at hc
    obtain ⟨_, hcomments⟩ := assignComments_eq_ok (hs .comment) hc
    obtain ⟨ha, _⟩ := assignElements_eq_ok (hs .inline) he
    refine ⟨fun body hi => ?_, fun regions => ?_⟩
    · rw [code_of_request hrequest, hshown] at hi
      obtain ⟨body', hi'⟩ := ha.numbered.comment_infix_text hi
      rw [ha.text, Element.pieces, flatMap_text_scan] at hi'
      exact not_comment_of_assignComments (hs .comment) hc body' hi'
    · rw [Comment.regions_iff, hcomments, regions_of_assign (fun _ _ => rfl) hc 0]
  · rcases h with hkey | hd
    · obtain ⟨_, hidden, hhide, _, _⟩ := exists_hide hs hmarks hrule hkey
      exact ⟨hidden, hhide.result⟩
    · exact exists_hide_of_differs hs hrule hd

/-- An opening marker in an element and in a comment, closing markers between comments and in an
element, and a comment without an end; and a text that has `TWIG_CS_`. -/
theorem concealed_of_prepare_overlap :
    let s := "#\x7d<b>\x7b#</b>\x7b#\x7d x #\x7d\x7b# a \x7b# b #\x7d#\x7d<i>#\x7d</i>\x7b# c".toList
    let code := "#\x7d<b>__TWIG_CS_COMMENT_0_aaaaaaaa__ x #\x7d__TWIG_CS_COMMENT_1_aaaaaaab__".toList ++
      "#\x7d__TWIG_CS_INLINE_0_aaaaaaaa__\x7b# c".toList
    ∃ p, ofSettings {} .counting = .ok p ∧
      ∃ hidden request, (p.prepare .empty s "t.twig" none).result = .ok (hidden, request) ∧
        request.code = code ∧ (∀ body, ¬ "\x7b#".toList ++ body ++ "#\x7d".toList <:+: code) ∧
        Comment.Regions s ["\x7b#</b>\x7b#\x7d".toList, "\x7b# a \x7b# b #\x7d".toList] ∧
        ∃ hidden, (p.hide "TWIG_CS_\x7b# a #\x7d".toList).result = .ok hidden := by
  intro s code
  let regions := ["\x7b#</b>\x7b#\x7d".toList, "\x7b# a \x7b# b #\x7d".toList]
  obtain ⟨p, hp, hs, hmarks, hrule, hdiffers, hrequest, hidden, hhide, hcode, hregions⟩ :
      ∃ p, ofSettings {} .counting = .ok p ∧ (∀ k, (p.supply k).WellFormed) ∧
        p.layout.comment = .comment ∧ p.layout.inline = .of "twig:".toList 120 ∧
        p.Differs "TWIG_CS_\x7b# a #\x7d".toList ∧
        (∀ code, ∃ request, (p.request .empty "t.twig" none code).result = .ok request) ∧
        ∃ hidden, (p.hide s).result = .ok hidden ∧ hidden.code = code ∧
          hidden.comments.entries.map (·.2) = regions :=
    ⟨_, rfl, fun _ => Supply.counting_wellFormed, rfl, rfl,
      ⟨⟨by decide +kernel, fun _ _ _ => trivial⟩, fun _ _ h => by cases h; trivial⟩,
      fun _ => ⟨_, rfl⟩,
      ⟨code, ⟨Kind.comment.label, [("__TWIG_CS_COMMENT_0_aaaaaaaa__".toList, regions[0]),
        ("__TWIG_CS_COMMENT_1_aaaaaaab__".toList, regions[1])], 2⟩,
        ⟨Kind.inline.label, [("__TWIG_CS_INLINE_0_aaaaaaaa__".toList, "<i>#\x7d</i>".toList)], 1⟩⟩,
      by decide +kernel, rfl, rfl⟩
  obtain ⟨hprepare, hsucceeds⟩ := concealed_of_prepare hs hmarks s
  obtain ⟨_, hhide'⟩ := hsucceeds "twig:".toList 120 hrule (.inl (by decide +kernel))
  cases hhide'.symm.trans hhide
  obtain ⟨request, hrequest⟩ := hrequest hidden.code
  have hrun := prepare_eq_ok_iff.mpr ⟨hhide, hrequest⟩
  have hrequested := (code_of_request hrequest).trans hcode
  obtain ⟨hnone, hall⟩ := hprepare .empty "t.twig" none hidden request hrun
  rw [hrequested] at hnone
  exact ⟨p, hp, hidden, request, hrun, hrequested, hnone, (hall _).mpr hregions.symm,
    (concealed_of_prepare hs hmarks _).2 "twig:".toList 120 hrule (.inr hdiffers)⟩

end Pipeline

end TwigLayout
