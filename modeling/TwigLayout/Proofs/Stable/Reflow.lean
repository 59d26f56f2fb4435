import TwigLayout.Proofs.Stable.Attribute
import TwigLayout.Proofs.Stable.Beside
import TwigLayout.Proofs.Stable.Component

/-!
# Documents that are laid out already

A document that was laid out is not always left as it is when it is laid out again: a statement
that starts behind another one is then on the last line of it, at another indentation
(`reflow_reflow_beside`). It is left as it is if the last lines of its literals show the indentation
at which they would be laid out (`Layout.Settled`), and otherwise some pass changes it
(`passes_self_iff`). They do in a document without component tags in which statements start their
lines and calls stand on the lines of their reference attributes (`reflow_reflow_of_steady`).
-/

namespace TwigLayout

open Text

namespace Layout

variable {layout : Layout} {s c m r : Text}

/-- Laying out `s` gives `c` once its component tags are laid out, then `m` with its merge
statements and `r` with its route calls. -/
structure Passes (layout : Layout) (s c m r : Text) : Prop where
  components : ∃ n, Component.layout layout.component (newlineOf s) s = .ok (c, n)
  statements : (Merge.layout layout.merge (newlineOf s) c).1 = m
  calls : Route.layout layout.route (newlineOf s) m = r

theorem reflow_eq_ok_iff : (layout.reflow s).result = .ok r ↔ ∃ c m, layout.Passes s c m r := by
  constructor
  · intro h
    obtain ⟨c, hc, h⟩ := Logged.result_bind_eq_ok.mp h
    obtain ⟨m, hm, h⟩ := Logged.result_bind_eq_ok.mp h
    obtain ⟨⟨c', n⟩, hc, hr⟩ := Logged.result_bind_eq_ok.mp hc
    cases hr
    exact ⟨c, m, ⟨n, hc⟩, Except.ok.inj hm, Except.ok.inj h⟩
  · rintro ⟨c, m, ⟨n, hc⟩, rfl, rfl⟩
    refine Logged.result_bind_eq_ok.mpr ⟨c, ?_, rfl⟩
    exact Logged.result_bind_eq_ok.mpr ⟨(c, n), hc, rfl⟩

/-- Every bare key has a value behind its colon, in the statements of `c` and the calls of `m`. -/
structure Valued (layout : Layout) (c m : Text) : Prop where
  statements : ∀ f ∈ locate 0 (scan (Merge.Statement.read layout.merge.block) c),
    Hash.Valued f.value.body
  calls : ∀ f ∈ locate 0 (scan (Route.Call.read layout.route.functions) m),
    Hash.Valued f.value.body

/-- No component tag of a document is to be laid out, and the last line of each literal shows the
indentation of the line on which its statement starts, or of that of its reference attribute. -/
structure Settled (layout : Layout) (r : Text) : Prop where
  components : ∃ out, Component.layout layout.component (newlineOf r) r = .ok (out, 0)
  statements : ∀ f ∈ locate 0 (scan (Merge.Statement.read layout.merge.block) r),
    Hash.properties f.value.body ≠ [] →
      newlineOf r ++ (indentationAt r f.start ++ layout.merge.indentUnit) <:+ f.value.body
  calls : ∀ f ∈ locate 0 (scan (Route.Call.read layout.route.functions) r),
    ∀ reference ∈ Route.referenceAt layout.route r f.start,
      Hash.properties f.value.body ≠ [] → newlineOf r ++ reference <:+ f.value.body

theorem newlineOf_suffix (s : Text) : ['\n'] <:+ newlineOf s := by
  rw [newlineOf]
  split
  · exact ⟨['\r'], rfl⟩
  · exact List.suffix_refl _

/-- The result of laying out a document is settled if and only if no pass changes it once more. -/
theorem passes_self_iff (hl : layout.Standard) (hspace : '=' ∉ layout.component.space)
    (hf : Route.AreNames layout.route.functions) (h : layout.Passes s c m r)
    (hv : layout.Valued c m) :
    layout.Passes r r r r ↔ layout.Settled r := by
  obtain ⟨hn, hnne⟩ := newlineOf_cases s
  have hnl := newlineOf_suffix s
  have hmerge : ∀ d ∈ layout.merge.indentUnit, d = ' ' ∨ d = '\t' :=
    fun d hd => .inl (hl.mergeUnit d hd)
  have hroute := blank_of_eq_space hl.routeUnit
  have hnewline : newlineOf r = newlineOf s :=
    newlineOf_reflow hl hf (reflow_eq_ok_iff.mpr ⟨c, m, h⟩)
  -- the statements were laid out before the calls, and still are
  have hdone : Merge.Done layout.merge (newlineOf s) r := by
    have hd := Merge.done_layout hl.block hn (blank_of_space_or_tab hmerge) hv.statements
    rw [h.statements] at hd
    have hr := Route.rehashed_layout hf hn hnne hroute m
    rw [h.calls] at hr
    exact hd.of_rehashed hr hn (blank_of_space_or_tab hmerge)
  have hcomponents := Component.layout_eq_self_iff hl.isPlain hspace (newlineOf_cases r).2
    (fun hmem => absurd ((newlineOf_cases r).1 _ hmem) (by decide)) r
  have hstatements := Merge.layout_eq_self_iff hl.block hn hnl hmerge hdone
  have hcalls := Route.layout_eq_self_iff hf.areWords hn hnl hroute h.calls
    fun f hf' _ => hv.calls f hf'
  rw [← hnewline] at hstatements hcalls
  constructor
  · rintro ⟨hc, hs, hr⟩
    exact ⟨hcomponents.mp hc, hstatements.mp hs, hcalls.mp hr⟩
  · rintro ⟨hc, hs, hr⟩
    exact ⟨hcomponents.mpr hc, hstatements.mpr hs, hcalls.mpr hr⟩

theorem exists_passes (hl : layout.Standard) (s : Text) : ∃ c m r, layout.Passes s c m r := by
  have ho := hl.isPlain.opening_ne_nil
  obtain ⟨c, n, hc⟩ := Component.exists_layout_eq_ok ho (newlineOf_cases s).2 s
  exact ⟨c, _, _, ⟨n, hc⟩, rfl, rfl⟩

/-! ## Documents that settle at once -/

/-- The characters of a namespace, and the one before it that starts a tag. -/
def isTagChar (c : Char) : Bool := isWord c || c == '<'

theorem outside_isTagChar : Hash.Outside isTagChar := forall_of_any (by decide)

theorem not_isTagChar_of_isBlank {c : Char} (h : isBlank c = true) : isTagChar c = false := by
  rw [isTagChar, not_isWord_of_isBlank h, Bool.false_or, beq_eq_false_iff_ne]
  rintro rfl
  exact absurd h (by decide)

/-- The document `s` has nothing in it that a component tag starts with, its merge statements start
their lines, and in `m`, the document with these laid out, the calls that are to be laid out stand
on the lines of their reference attributes. -/
structure Steady (layout : Layout) (s m : Text) : Prop where
  components : ¬ layout.component.tagOpen.takeWhile isTagChar <:+: s
  statements : ∀ f ∈ locate 0 (scan (Merge.Statement.read layout.merge.block) s),
    Merge.StartsLine s f.start
  calls : ∀ f ∈ locate 0 (scan (Route.Call.read layout.route.functions) m),
    (Route.editOf layout.route (newlineOf s) m f).isSome → Route.Attached layout.route m f

/-- Laying out statements and calls brings about nothing that a component tag starts with. -/
theorem not_infix_layout (hl : layout.Standard) {w : Text} (hw : ∀ c ∈ w, isTagChar c = true)
    (hm : (Merge.layout layout.merge (newlineOf s) s).1 = m) (h : ¬ w <:+: s) :
    ¬ w <:+: Route.layout layout.route (newlineOf s) m := by
  have hblank : ∀ {b : Text}, Blank b → ∀ c ∈ b, isTagChar c = false :=
    fun hb c hc => not_isTagChar_of_isBlank (hb c hc)
  have hn := hblank (newlineOf_cases s).1
  have hmerge := Merge.runsIn_layout (s := s) outside_isTagChar hl.block
    (hblank (blank_of_eq_space hl.mergeUnit)) hn
  rw [hm] at hmerge
  have hroute := Route.runsIn_layout (s := m) outside_isTagChar
    (hblank (blank_of_eq_space hl.routeUnit)) hn
  exact fun hi => h (hmerge w hw (hroute w hw hi))

theorem not_infix_tagOpen {t : Text}
    (h : ¬ layout.component.tagOpen.takeWhile isTagChar <:+: t) :
    ¬ layout.component.tagOpen <:+: t :=
  fun hi => h ((List.takeWhile_prefix _).isInfix.trans hi)

theorem Steady.passes (hl : layout.Standard)
    (hm : (Merge.layout layout.merge (newlineOf s) s).1 = m) (h : layout.Steady s m) :
    layout.Passes s s m (Route.layout layout.route (newlineOf s) m) :=
  ⟨⟨0, Component.layout_eq_of_not_infix hl.isPlain.opening_ne_nil (newlineOf_cases s).2
    (not_infix_tagOpen h.components)⟩, hm, rfl⟩

/-- The result for such a document is settled: its statements start their lines as before, and its
calls have the reference attributes that they had. -/
theorem Steady.settled (hl : layout.Standard) (hf : Route.AreNames layout.route.functions)
    (hmarker : Route.IsMarker layout.route.marker)
    (hm : (Merge.layout layout.merge (newlineOf s) s).1 = m) (hv : layout.Valued s m)
    (h : layout.Steady s m) : layout.Settled (Route.layout layout.route (newlineOf s) m) := by
  obtain ⟨hn, hnne⟩ := newlineOf_cases s
  have hmerge := blank_of_eq_space hl.mergeUnit
  have hroute := blank_of_eq_space hl.routeUnit
  have hnewline := newlineOf_reflow hl hf (reflow_eq_ok_iff.mpr ⟨s, m, h.passes hl hm⟩)
  have hplace : Merge.InPlace layout.merge (newlineOf s)
      (Route.layout layout.route (newlineOf s) m) := by
    have hfirst := Merge.inPlace_layout hl.block hn hmerge h.statements hv.statements
    rw [hm] at hfirst
    exact hfirst.of_rehashed (Route.rehashed_layout hf hn hnne hroute m) hn hmerge
  refine ⟨?_, ?_, ?_⟩
  · have hnone := not_infix_layout hl (fun _ hc => List.mem_takeWhile_imp hc) hm h.components
    exact ⟨_, Component.layout_eq_of_not_infix hl.isPlain.opening_ne_nil (newlineOf_cases _).2
      (not_infix_tagOpen hnone)⟩
  · rw [hnewline]
    exact fun f hf' hp => hplace.isSuffix hl.block hf' hp
  · rw [hnewline]
    exact Route.isSuffix_of_attached hf.areWords hmarker hn (newlineOf_suffix s) hroute rfl h.calls

/-! ## The default settings -/

/-- The layout of the default settings. -/
def default : Layout :=
  ⟨.comment, ⟨.str "twig:", .int 120⟩, .default, .default, .default, false⟩

theorem ofSettings_default : ofSettings {} = .ok default := rfl

theorem standard_default : default.Standard := standard_of_ofSettings rfl ofSettings_default

/-- With the default settings every document is laid out, and laying out the result once more leaves
it as it is if it is settled. -/
theorem reflow_reflow (s : Text) :
    ∃ c m r, default.Passes s c m r ∧ (default.reflow s).result = .ok r ∧
      (default.Valued c m → default.Settled r → (default.reflow r).result = .ok r) := by
  have hl := standard_default
  have hspace : '=' ∉ default.component.space := by decide
  have hnames : Route.AreNames default.route.functions := Route.areNames_path
  obtain ⟨c, m, r, h⟩ := exists_passes hl s
  refine ⟨c, m, r, h, reflow_eq_ok_iff.mpr ⟨c, m, h⟩, fun hv hs => ?_⟩
  exact reflow_eq_ok_iff.mpr ⟨r, r, (passes_self_iff hl hspace hnames h hv).mpr hs⟩

/-- A component tag, a merge statement and two route calls on one line. -/
theorem reflow_reflow_lines :
    let calls := " href=path('p', \x7bi: 2\x7d)".toList ++ " href=path('q', \x7b'k': 3\x7d)".toList
    let rest := "\x7b% set d = e|merge(\x7bx: 1\x7d) %\x7d\n".toList ++ calls
    let tag := "<twig:A\n    b=\"1\"\n    c=\"2\"\n/>\n".toList
    let statement := "\x7b% set d = e|merge(\x7b\n        ".toList ++ "'x': 1\n    \x7d) %\x7d\n".toList
    let s := "<twig:A b=\"1\" c=\"2\"/>\n".toList ++ rest
    let c := tag ++ rest
    let m := tag ++ (statement ++ calls)
    let r := tag ++ (statement ++ (" href=path('p', \x7b\n     'i': 2\n \x7d)".toList ++
      " href=path('q', \x7b\n     'k': 3\n \x7d)".toList))
    default.Passes s c m r ∧ (default.reflow r).result = .ok r := by
  intro calls rest tag statement s c m r
  have hc : Component.layout default.component (newlineOf s) s = .ok (c, 1) := by decide +kernel
  have hm : (Merge.layout default.merge (newlineOf s) c).1 = m := by decide +kernel
  have hr : Route.layout default.route (newlineOf s) m = r := by decide +kernel
  have hv : default.Valued c m := ⟨by decide +kernel, by decide +kernel⟩
  have hs₁ : Component.layout default.component (newlineOf r) r = .ok (r, 0) := by decide +kernel
  have hs : default.Settled r := by
    refine ⟨⟨r, hs₁⟩, ?_, ?_⟩
    · decide +kernel
    · decide +kernel
  refine ⟨⟨⟨1, hc⟩, hm, hr⟩, ?_⟩
  obtain ⟨c', m', r', h, _, hstable⟩ := reflow_reflow s
  obtain ⟨n, hn⟩ := h.components
  have hc' : c' = c := congrArg Prod.fst (Except.ok.inj (hn.symm.trans hc))
  have hm' : m' = m := by
    rw [← h.statements, hc', hm]
  have hr' : r' = r := by
    rw [← h.calls, hm', hr]
  rw [hc', hm', hr'] at hstable
  exact hstable hv hs

/-- With the default settings a document without component tags is laid out once and for all, if its
statements start their lines and its calls stand on the lines of their reference attributes. -/
theorem reflow_reflow_of_steady (hm : (Merge.layout default.merge (newlineOf s) s).1 = m)
    (hv : default.Valued s m) (hs : default.Steady s m) :
    ∃ r, (default.reflow s).result = .ok r ∧ (default.reflow r).result = .ok r := by
  have hl := standard_default
  have hspace : '=' ∉ default.component.space := by decide
  have hnames : Route.AreNames default.route.functions := Route.areNames_path
  have hmarker : Route.IsMarker default.route.marker :=
    @Route.isMarker_of_name "href".toList (forall_of_all (by decide))
  have hpasses := hs.passes hl hm
  refine ⟨_, reflow_eq_ok_iff.mpr ⟨s, m, hpasses⟩, ?_⟩
  have hsettled := hs.settled hl hnames hmarker hm hv
  exact reflow_eq_ok_iff.mpr ⟨_, _, (passes_self_iff hl hspace hnames hpasses hv).mpr hsettled⟩

/-- A statement at an indentation, and two calls behind one attribute. -/
example :
    let s := "  \x7b% set a = b|merge(\x7bx: 1\x7d) %\x7d\n".toList ++
      "<a href=path('p', \x7bi: 2\x7d) path('q', \x7bk: 3\x7d)>".toList
    ∃ r, (default.reflow s).result = .ok r ∧ (default.reflow r).result = .ok r :=
  reflow_reflow_of_steady rfl ⟨by decide +kernel, by decide +kernel⟩
    ⟨by decide +kernel, by decide +kernel, by decide +kernel⟩

/-- The second of two statements on one line is laid out at another indentation the second time: it
then starts on the last line of the first one. -/
theorem reflow_reflow_beside :
    let second := "\x7b% set c = d|merge(\x7b".toList
    let first := "\x7b% set a = b|merge(\x7b\n        'x': 1\n    \x7d) %\x7d".toList ++ second
    let s := "\x7b% set a = b|merge(\x7bx: 1\x7d) %\x7d".toList ++ (second ++ "y: 2\x7d) %\x7d".toList)
    let r := first ++ "\n        'y': 2\n    \x7d) %\x7d".toList
    let r' := first ++ "\n            'y': 2\n        \x7d) %\x7d".toList
    default.Valued s s ∧ (default.reflow s).result = .ok r ∧ (default.reflow r).result = .ok r' ∧
      r' ≠ r := by
  intro second first s r r'
  refine ⟨⟨by decide +kernel, by decide +kernel⟩, ?_, ?_, by decide +kernel⟩
  · decide +kernel
  · decide +kernel

end Layout

end TwigLayout
