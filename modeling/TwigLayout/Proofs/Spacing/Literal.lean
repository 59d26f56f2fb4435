import TwigLayout.Proofs.Content.Merge
import TwigLayout.Proofs.Content.Route
import TwigLayout.Proofs.Spacing.Basic

/-!
# Spacing of hash literals

Laying out merge statements and route calls respaces a document (`Merge.respaced_layout`,
`Route.respaced_layout`). All they change is around the properties of a literal, whose braces let
gaps come about at its two ends.
-/

namespace TwigLayout

open Text Spacing

namespace Hash

variable {g n e e' sep : Text}

/-- Properties with their keys quoted, the first behind `n` and each other one behind `sep`. -/
def lined (sep : Text) : (n : Text) → List Text → Text
  | _, [] => []
  | n, p :: props => n ++ (quoteKey p ++ lined sep sep props)

theorem append_intercalate_eq_lined (newline indent : Text) {props : List Text} (hne : props ≠ []) :
    newline ++ (',' :: newline).intercalate (props.map fun p => indent ++ quoteKey p) =
      lined (',' :: newline ++ indent) (newline ++ indent) props := by
  have hall : ∀ (n : Text) (props : List Text), props ≠ [] →
      n ++ (',' :: newline).intercalate (props.map fun p => indent ++ quoteKey p) =
        lined (',' :: newline ++ indent) (n ++ indent) props := by
    intro n props hne
    induction props generalizing n with
    | nil => exact absurd rfl hne
    | cons p props ih =>
      cases props with
      | nil => simp [lined]
      | cons p' props =>
        have ih := ih (',' :: newline) (by simp)
        rw [lined, ← ih]
        simp [List.intercalate_cons_cons]
  exact hall newline props hne

/-- Quoting the key of a property behind a gap. -/
theorem respaced_quoteKey (hg : Soft g) (hn : Soft n) (hgne : g ≠ []) (hnne : n ≠ [])
    (property : Text) (h : Respaced e e') :
    Respaced (g ++ (property ++ e)) (n ++ (quoteKey property ++ e')) := by
  rw [quoteKey]
  split
  · next key value hkey =>
    obtain ⟨gap, gap', rfl, hgap, hgap', _⟩ := exists_of_bareKey? hkey
    have hcolon : Respaced (gap ++ ':' :: gap' ++ (value ++ e))
        (['\'', ':', ' '] ++ (value ++ e')) :=
      .gap ((soft_of_blank hgap).append (.cons (by decide) (soft_of_blank hgap')))
        (.of_all (by decide)) (by simp) (by simp) (h.append_left value)
    have hall := Respaced.gap hg (hn.append (.of_all (by decide : ['\''].all isSoft = true))) hgne
      (by simp) (hcolon.append_left key)
    simpa using hall
  · exact .gap hg hn hgne hnne (h.append_left property)

/-- The segments of a body behind a gap, and their properties one after the other. -/
theorem respaced_lined (hsep : Soft sep) (hsepne : sep ≠ [])
    (hend : ∀ u, Soft u → Respaced (u ++ e) e') (segments : List Text) (hg : Soft g) (hgne : g ≠ [])
    (hn : Soft n) (hnne : n ≠ []) :
    Respaced (g ++ ([','].intercalate segments ++ e))
      (lined sep n ((segments.map trim).filter (!·.isEmpty)) ++ e') := by
  induction segments generalizing g n with
  | nil => exact hend g hg
  | cons x segments ih =>
    -- what follows the segment: nothing, or a comma and the other segments
    obtain ⟨tail, htail, hrest⟩ : ∃ tail, [','].intercalate (x :: segments) = x ++ tail ∧
        ∀ {u m : Text}, Soft u → Soft m → m ≠ [] → Respaced (u ++ (tail ++ e))
          (lined sep m ((segments.map trim).filter (!·.isEmpty)) ++ e') := by
      cases segments with
      | nil => exact ⟨[], by simp, fun hu _ _ => hend _ hu⟩
      | cons y segments =>
        refine ⟨',' :: [','].intercalate (y :: segments), by simp [List.intercalate_cons_cons],
          fun {u m} hu hm hmne => ?_⟩
        have h := ih (hu.append (.of_all (by decide : [','].all isSoft = true))) (by simp) hm hmne
        simpa using h
    rw [htail, List.append_assoc]
    rcases blank_or_exists_isTrim x with hblank | ⟨a, b, ha, hb, hx, ht⟩
    · have hprops : ((x :: segments).map trim).filter (!·.isEmpty) =
          (segments.map trim).filter (!·.isEmpty) := by
        rw [List.map_cons, trim_of_blank hblank]
        rfl
      rw [hprops, ← List.append_assoc]
      exact hrest (hg.append (soft_of_blank hblank)) hn hnne
    · have hprops : ((x :: segments).map trim).filter (!·.isEmpty) =
          trim x :: (segments.map trim).filter (!·.isEmpty) := by
        rw [List.map_cons, List.filter_cons_of_pos (by simpa using ht.ne_nil)]
      have hsegment := respaced_quoteKey (hg.append (soft_of_blank ha)) hn (by simp [hgne]) hnne
        (trim x) (hrest (soft_of_blank hb) hsep hsepne)
      have htext : g ++ (x ++ (tail ++ e)) = g ++ a ++ (trim x ++ (b ++ (tail ++ e))) := by
        conv => lhs; rw [hx]
        simp only [List.append_assoc]
      rw [hprops, htext, lined]
      simpa only [List.append_assoc] using hsegment

/-- A literal in its braces, and the literal laid out. -/
theorem respaced_layout {body indent newline b out z z' : Text} (hi : Soft indent)
    (hn : Soft newline) (hnne : newline ≠ []) (hb : Soft b) (hbne : b ≠ [])
    (h : layout body indent newline = some out) (hz : Respaced z z') :
    Respaced ('{' :: (body ++ '}' :: z)) ('{' :: (newline ++ out ++ b ++ '}' :: z')) := by
  have hspace : Soft [' '] := .of_all (by decide)
  -- a space comes about at each end, and then all gaps around the properties change
  have hopen : Respace ('{' :: (body ++ '}' :: z))
      ('{' :: ([' '] ++ (body ++ ([' '] ++ '}' :: z)))) :=
    .opening hspace (.append_left body (.closing hspace (.refl z)))
  have hend : ∀ u, Soft u → Respaced (u ++ ([' '] ++ '}' :: z)) (b ++ '}' :: z') := by
    intro u hu
    rw [← List.append_assoc]
    exact .gap (hu.append hspace) hb (by simp) hbne (hz.append_left ['}'])
  have hlined := respaced_lined (hn.append hi |>.cons (by decide : isSoft ',' = true)) (by simp)
    hend (segments .start body) hspace (by simp) (hn.append hi) (by simp [hnne])
  rw [intercalate_segments] at hlined
  have hprops : properties body ≠ [] := fun hnil => by
    rw [layout_eq_none_iff.mpr hnil] at h
    cases h
  have hout : newline ++ out =
      lined (',' :: (newline ++ indent)) (newline ++ indent) (properties body) := by
    rw [layout] at h
    split at h
    · cases h
    · cases h
      exact append_intercalate_eq_lined newline indent hprops
  refine hopen.respaced.trans ?_
  rw [hout, List.append_assoc]
  exact hlined.append_left ['{']

end Hash

/-! ## Merge statements -/

namespace Merge

variable {style : Style} {newline base : Text}

theorem Statement.respaced_layout (hn : Blank newline) (hnne : newline ≠ []) (hbase : Blank base)
    (hu : Blank style.indentUnit) {m : Statement} {old new : Text} (hm : m.Spelled old)
    (h : m.layout style newline base = some new) : Respaced old new := by
  obtain ⟨out, hout, rfl⟩ := Option.map_eq_some_iff.mp h
  obtain ⟨opening, gap, gap', ⟨gap₁, gap₂, hgap₁, hgap₂, rfl⟩, hgap, hgap', rfl⟩ := hm.text
  obtain ⟨blank, hblank, hhead⟩ := exists_trimRight_append_blank m.head
  have hclose : Respaced (gap ++ ')' :: gap' ++ m.close) ([')', ' '] ++ m.close) :=
    .gap ((soft_of_blank hgap).append (.cons (by decide) (soft_of_blank hgap')))
      (.of_all (by decide)) (by simp) (by simp) (.refl m.close)
  have hliteral := Hash.respaced_layout (b := newline ++ base ++ style.indentUnit)
    (soft_of_blank ((hbase.append hu).append hu)) (soft_of_blank hn) hnne
    (soft_of_blank ((hn.append hbase).append hu)) (by simp [hnne]) hout hclose
  have hparen := hliteral.gap (g := '(' :: gap₂) (k := ['('])
    (.cons (by decide) (soft_of_blank hgap₂)) (.of_all (by decide)) (by simp) (by simp)
  have hbar := (hparen.append_left "merge".toList).gap (g := blank ++ '|' :: gap₁) (k := ['|'])
    ((soft_of_blank hblank).append (.cons (by decide) (soft_of_blank hgap₁)))
    (.of_all (by decide)) (by simp) (by simp)
  have hall := hbar.append_left (trimRight m.head)
  have hold : m.head ++ ('|' :: (gap₁ ++ ("merge(".toList ++ (gap₂ ++ ['{']))) ++ (m.body ++
      '}' :: (gap ++ ')' :: (gap' ++ m.close)))) = trimRight m.head ++ (blank ++ '|' :: gap₁ ++
        ("merge".toList ++ ('(' :: gap₂ ++ '{' :: (m.body ++ '}' ::
          (gap ++ ')' :: gap' ++ m.close))))) := by
    conv => lhs; rw [hhead]
    simp
  rw [hold]
  simpa using hall

/-- Laying out merge statements respaces the document. -/
theorem respaced_layout (hb : style.block = .block) (hn : Blank newline) (hnne : newline ≠ [])
    (hu : Blank style.indentUnit) (s : Text) : Respaced s (layout style newline s).1 := by
  rw [layout, layoutPieces_flatMap]
  refine respaced_replacePieces (Statement.read_consumes style.block) ?_ s
  intro i last m old rest new hr h
  exact Statement.respaced_layout hn hnne (blank_indentation _) hu (.of_read hb hr) h

end Merge

/-! ## Route calls -/

namespace Route

variable {style : Style} {newline reference : Text}

theorem Call.respaced_layout (hn : Blank newline) (hnne : newline ≠ []) (href : Blank reference)
    (hu : Blank style.indentUnit) {c : Call} {old new : Text} (hc : c.Spelled old)
    (h : c.layout style newline reference = some new) : Respaced old new := by
  obtain ⟨out, hout, rfl⟩ := Option.map_eq_some_iff.mp h
  obtain ⟨gap, gap', gap'', gap₃, hgap, hgap', hgap'', hgap₃, rfl⟩ := hc.text
  have hclose : Respaced (gap₃ ++ [')'] ++ []) ([')'] ++ []) :=
    .gap ((soft_of_blank hgap₃).append (.of_all (by decide))) (.of_all (by decide)) (by simp)
      (by simp) (.refl [])
  have hliteral := Hash.respaced_layout (b := newline ++ reference)
    (soft_of_blank (href.append hu)) (soft_of_blank hn) hnne (soft_of_blank (hn.append href))
    (by simp [hnne]) hout hclose
  have hcomma := hliteral.gap (g := gap' ++ ',' :: gap'') (k := [',', ' '])
    ((soft_of_blank hgap').append (.cons (by decide) (soft_of_blank hgap''))) (.of_all (by decide))
    (by simp) (by simp)
  have hparen := (hcomma.append_left c.route).gap (g := '(' :: gap) (k := ['('])
    (.cons (by decide) (soft_of_blank hgap)) (.of_all (by decide)) (by simp) (by simp)
  have hall := hparen.append_left c.function
  simpa using hall

/-- Laying out route calls respaces the document. -/
theorem respaced_layout (hf : AreNames style.functions) (hn : Blank newline) (hnne : newline ≠ [])
    (hu : Blank style.indentUnit) (s : Text) : Respaced s (layout style newline s) := by
  rw [layout_eq_replacePieces]
  refine respaced_replacePieces (Call.read_consumes style.functions) ?_ s
  intro i last c old rest new hr h
  obtain ⟨e, he, rfl⟩ := Option.map_eq_some_iff.mp h
  obtain ⟨_, _, k, hnew⟩ := editOf_eq_some he
  obtain ⟨_, _, t, ht, heq⟩ := (Call.read_iff hf.areWords).mp hr
  obtain rfl := List.append_cancel_right heq
  exact Call.respaced_layout hn hnne (blank_indentation _) hu ht hnew

end Route

end TwigLayout
