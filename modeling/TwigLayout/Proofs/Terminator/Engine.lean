import TwigLayout.Proofs.Terminator.Paired

/-!
# Line ends across the engine

The standard output of a child process is read as lines of text, so that all its line ends come back
as line feeds. What is laid out then has line feeds alone, and the comments that come back last have
the line ends of the document (`format_echo_crlf`). With an engine that changes nothing, the line
feeds of a paired document are paired again only if the child process saw none
(`paired_format_echo_iff`).
-/

namespace TwigLayout

open Text Placeholder

/-! ## An engine that changes nothing -/

namespace Engine

/-- The child process writes what it reads, and ends without a fault. -/
def Echoes (child : Child) : Prop :=
  ∀ call s, call.input = some s → ∃ err, child call = .ok ⟨s, err, 0⟩

/-- The child process that writes what it reads, and nothing else. -/
def echo : Child := fun call => .ok ⟨call.input.getD [], [], 0⟩

theorem echoes_echo : Echoes echo := by
  intro call s h
  refine ⟨[], ?_⟩
  rw [echo, h]
  rfl

/-- Line ends are all that is lost. -/
theorem eq_unifyNewlines_of_format {e : EngineSettings} {child : Child} (hchild : Echoes child)
    {optionsFile : String} {r : Request} {out : Text}
    (h : (format e child optionsFile r).result = .ok out) : out = unifyNewlines r.code := by
  obtain ⟨call, hcall, h⟩ := Logged.result_bind_eq_ok.mp h
  obtain ⟨_, _, h⟩ := Logged.result_bind_eq_ok.mp h
  obtain ⟨_, _, h⟩ := Logged.result_bind_eq_ok.mp h
  obtain ⟨_, _, hcall⟩ := bind_eq_ok.mp hcall
  obtain ⟨_, _, hcall⟩ := bind_eq_ok.mp hcall
  obtain ⟨_, _, hcall⟩ := bind_eq_ok.mp hcall
  have hinput : call.input = some r.code := by
    cases hcall
    rfl
  obtain ⟨err, hend⟩ := hchild call r.code hinput
  rw [hend] at h
  exact (Except.ok.inj h).symm

end Engine

/-! ## Comments -/

theorem Comment.exists_of_mem_pieces {s t : Text} {u : Unit} (h : .found u t ∈ pieces .comment s) :
    ∃ m, t = '{' :: (m ++ ['}']) := by
  obtain ⟨body, rfl⟩ := exists_body_of_mem_pieces h
  exact ⟨'#' :: (body ++ ['#']), by simp⟩

namespace Placeholder

/-- A token without line ends, and a paired region that ends no line. -/
structure PairedEntry (e : Text × Text) : Prop where
  ne_nil : e.1 ≠ []
  not_mem : '\r' ∉ e.1 ∧ '\n' ∉ e.1
  region : ∃ m, e.2 = '{' :: (m ++ ['}'])
  paired : Paired e.2

theorem pairedEntry_of_mem_comments {supply : Supply} (hs : supply.WellFormed) {s : Text}
    (hp : Paired s) {parts : List (Piece Text)} {t : Table}
    (h : assignComments supply .comment s = .ok (parts, t)) : ∀ e ∈ t.entries, PairedEntry e := by
  intro e he
  obtain ⟨ha, hentries⟩ := assignComments_eq_ok hs h
  have hinfix := (region_of_mem_comments hs h he).2
  have hne := (walled_comments hs h).ne_nil e he
  rw [hentries] at he
  obtain ⟨i, htoken⟩ := ha.isToken he
  obtain ⟨value, hv⟩ := ha.found _ _ (mem_filterMap_pair?.mp he)
  obtain ⟨m, hm⟩ := Comment.exists_of_mem_pieces hv
  refine ⟨hne, ⟨htoken.not_mem (by decide), htoken.not_mem (by decide)⟩, ⟨m, hm⟩,
    hp.of_isInfix hinfix ?_⟩
  rw [hm, List.head?_cons]
  decide

theorem paired_restoreEntries_iff {entries : List (Text × Text)}
    (h : ∀ e ∈ entries, PairedEntry e) (s : Text) :
    Paired (restoreEntries entries s).1 ↔ Paired s := by
  induction entries generalizing s with
  | nil => exact Iff.rfl
  | cons e entries ih =>
    obtain ⟨he, hentries⟩ := List.forall_mem_cons.mp h
    obtain ⟨m, hm⟩ := he.region
    have hlast : e.2.getLast? ≠ some '\r' := by
      rw [hm, ← List.cons_append, List.getLast?_concat]
      decide
    rw [restoreEntries_cons_fst, ih hentries]
    exact paired_replaceAll_iff he.ne_nil he.not_mem he.paired (by simp [hm]) hlast s

end Placeholder

/-! ## Runs -/

namespace Pipeline

variable {p : Pipeline}

/-- A run hides, asks the formatter for the code, and finishes its answer. -/
theorem exists_request_of_format [YamlReader] {formatter : Formatter} {t : Tree} {s : Text}
    {file : String} {workspace : Option String} {out : Text}
    (h : (p.format formatter t s file workspace).result = .ok out) :
    ∃ hidden request answer, (p.hide s).result = .ok hidden ∧ request.code = hidden.code ∧
      (formatter request).result = .ok answer ∧ (p.finish hidden answer).result = .ok out := by
  obtain ⟨⟨hidden, request⟩, hp, h⟩ := Logged.result_bind_eq_ok.mp h
  obtain ⟨answer, ha, hfinish⟩ := Logged.result_bind_eq_ok.mp h
  obtain ⟨_, _, hp⟩ := Logged.result_bind_eq_ok.mp hp
  obtain ⟨hidden', hh, hp⟩ := Logged.result_bind_eq_ok.mp hp
  obtain ⟨request', hr, hp⟩ := Logged.result_bind_eq_ok.mp hp
  cases hp
  obtain ⟨_, _, hr⟩ := Logged.result_bind_eq_ok.mp hr
  cases hr
  exact ⟨hidden, _, answer, hh, rfl, ha, hfinish⟩

/-- What becomes of the line ends of a paired document when the engine changes nothing. The result
is paired if what the passes lay out is, and only then. Let `code` be what they get: the code as the
child process gives it back, with the elements in it. If no carriage return stands before a line
feed there, that is only if there is no line feed either and nothing is laid out. If the code is
paired, the result is. All other code has line feeds of both sorts, from the lines of the document
and from its elements, and it depends on the passes whether they lay out all the lines. -/
theorem paired_format_echo_iff [YamlReader] (hs : (p.supply .comment).WellFormed)
    (hl : p.layout.Standard) (hf : Route.AreNames p.layout.route.functions) {child : Engine.Child}
    (hchild : Engine.Echoes child) {optionsFile : String} {t : Tree} {s : Text} (hp : Paired s)
    {file : String} {workspace : Option String} {out : Text}
    (h : (p.format (Engine.format p.engine child optionsFile) t s file workspace).result =
      .ok out) :
    ∃ hidden code laidOut, (p.hide s).result = .ok hidden ∧
      code = (restoreEntries hidden.elements.entries (unifyNewlines hidden.code)).1 ∧
      (p.layout.reflow code).result = .ok laidOut ∧ (Paired out ↔ Paired laidOut) ∧
      (Bare code → (Paired out ↔ '\n' ∉ code ∧ laidOut = code)) ∧
      (¬ Bare code → Paired code → Paired out) := by
  obtain ⟨hidden, request, answer, hh, hcode, ha, hfinish⟩ := exists_request_of_format h
  obtain rfl := Engine.eq_unifyNewlines_of_format hchild ha
  obtain ⟨code, laidOut, hi, hreflow, hr⟩ := finish_eq_ok hfinish
  obtain ⟨hi, _⟩ := restore_result_eq_ok_iff.mp hi
  obtain ⟨hr, _⟩ := restore_result_eq_ok_iff.mp hr
  obtain ⟨parts, _, hc, _, _⟩ := hide_eq_ok hh
  rw [hl.comment] at hc
  have hout : Paired out ↔ Paired laidOut := by
    rw [← hr]
    exact paired_restoreEntries_iff (pairedEntry_of_mem_comments hs hp hc) laidOut
  rw [hcode] at hi
  refine ⟨hidden, code, laidOut, hh, hi.symm, hreflow, hout, fun hbare => ?_,
    fun hcrlf hpaired => ?_⟩
  · exact hout.trans (Layout.paired_reflow_iff hl hf hbare hreflow)
  · exact hout.mpr (Layout.paired_reflow hl hf hpaired hcrlf hreflow)

/-- Line ends in a comment and in a hidden element, of which the child process sees neither. -/
theorem paired_format_echo_element :
    let s := "<twig:A b=\"1\" c=\"2\"/>\x7b# y\r\n#\x7d <b>x</b\r\n>".toList
    let out := "<twig:A\r\n    b=\"1\"\r\n    c=\"2\"\r\n/>\x7b# y\r\n#\x7d <b>x</b\r\n>".toList
    Paired s ∧ ∃ p, ofSettings {} .counting = .ok p ∧
      (p.format (Engine.format p.engine Engine.echo "options.json") .empty s "t.twig" none).result =
        .ok out ∧ Paired out := by
  intro s out
  have hs : Paired s :=
    ((((paired_of_not_mem (s := "<twig:A b=\"1\" c=\"2\"/>\x7b# y".toList) (by decide)).append
      paired_crlf).append (paired_of_not_mem (s := "#\x7d <b>x</b".toList) (by decide))).append
      paired_crlf).append (paired_of_not_mem (s := ['>']) (by decide))
  obtain ⟨p, hset, hsupply, hl, hf, hrun, hcode⟩ :
      ∃ p, ofSettings {} .counting = .ok p ∧ (p.supply .comment).WellFormed ∧ p.layout.Standard ∧
        Route.AreNames p.layout.route.functions ∧
        (p.format (Engine.format p.engine Engine.echo "options.json") .empty s "t.twig"
          none).result = .ok out ∧
        ((p.hide s).result.map fun hidden =>
          (restoreEntries hidden.elements.entries (unifyNewlines hidden.code)).1) =
            .ok ("<twig:A b=\"1\" c=\"2\"/>__TWIG_CS_COMMENT_0_aaaaaaaa__ <b>x</b".toList ++
              ['\r', '\n'] ++ ['>']) :=
    ⟨_, rfl, Supply.counting_wellFormed,
      Layout.standard_of_ofSettings (rfl : ({} : Settings).delimitersOrDefault = .ok {}) rfl,
      Route.areNames_path, by decide +kernel, by decide +kernel⟩
  refine ⟨hs, p, hset, hrun, ?_⟩
  obtain ⟨hidden, code, laidOut, hh, he, _, _, _, hpaired⟩ :=
    paired_format_echo_iff hsupply hl hf Engine.echoes_echo hs hrun
  rw [hh] at hcode
  rw [he.trans (Except.ok.inj hcode)] at hpaired
  refine hpaired (not_bare_append_crlf_append _ _) ?_
  exact ((paired_of_not_mem (by decide +kernel)).append paired_crlf).append
    (paired_of_not_mem (by decide))

/-- Code with line feeds of both sorts, the pair from an element: the one that stands alone is left
where nothing is laid out, and is gone from a literal that is. -/
example :
    let echoed (s : String) := (ofSettings {} .counting).bind fun p =>
      (p.format (Engine.format p.engine Engine.echo "options.json") .empty s.toList "t.twig"
        none).result
    echoed "<b>x</b\r\n>\r\n" = .ok "<b>x</b\r\n>\n".toList ∧
      echoed "<b>x</b\r\n>\x7b% set a = b|merge(\x7b x: 1,\r\n y: 2 \x7d) %\x7d" =
        .ok ("<b>x</b\r\n>\x7b% set a = b|merge(\x7b\r\n        'x': 1,\r\n        'y': 2\r\n".toList ++
          "    \x7d) %\x7d".toList) := by
  decide +kernel

/-- A document with a carriage return before each line feed comes back with line feeds alone. -/
theorem format_echo_crlf :
    Paired "a\r\nb\r\n".toList ∧ Engine.Echoes Engine.echo ∧
    ∃ p, ofSettings {} .counting = .ok p ∧
      (p.format (Engine.format p.engine Engine.echo "options.json") .empty "a\r\nb\r\n".toList
        "t.twig" none).result = .ok "a\nb\n".toList ∧ ¬ Paired "a\nb\n".toList := by
  refine ⟨?_, Engine.echoes_echo, ?_⟩
  · exact ((paired_of_not_mem (s := ['a']) (by decide)).append paired_crlf).append
      ((paired_of_not_mem (s := ['b']) (by decide)).append paired_crlf)
  · refine ⟨_, rfl, by decide +kernel, fun h => ?_⟩
    exact absurd (h ['a'] ['b', '\n'] rfl) (by decide)

end Pipeline

end TwigLayout
