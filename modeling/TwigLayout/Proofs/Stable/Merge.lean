import TwigLayout.Proofs.Content.Merge
import TwigLayout.Proofs.Stable.Hash
import TwigLayout.Proofs.Text.Lines

/-!
# Merge statements that are laid out already

A document is *done* if every merge statement of it that has properties is written as laying out
writes it, at whatever indentation.

1. `done_layout`: laying out gives a document that is done.
2. `layout_eq_self_iff`: laying out such a document leaves it as it is if the last line of each
   literal shows the indentation of the line on which the statement starts, and only then.
3. `inPlace_layout`: if every statement starts its line, each one is laid out at the indentation of
   that line. Behind a finding no statement starts its line, so no such line has grown in front of
   one.
4. `relayout_of_startsLine`: so laying out leaves such a document as it laid it out.
-/

namespace TwigLayout.Merge

open Text

variable {style : Style} {newline base : Text}

/-! ## Statements -/

/-- The statement `m` is written as laying out writes it, at the indentation `base`. -/
structure Statement.LaidOut (style : Style) (newline base : Text) (m : Statement) (t : Text) :
    Prop where
  head : trimRight m.head = m.head
  body : Hash.LaidOut newline (base ++ style.indentUnit ++ style.indentUnit)
    (newline ++ (base ++ style.indentUnit)) m.body
  text : t = m.head ++ ("|merge(\x7b".toList ++ (m.body ++ ("\x7d) ".toList ++ m.close)))

theorem Statement.LaidOut.layout_eq {m : Statement} {t : Text}
    (h : m.LaidOut style newline base t) (hn : Blank newline) (hbase : Blank base)
    (hu : Blank style.indentUnit) : m.layout style newline base = some t := by
  obtain ⟨out, hout, hbody⟩ := h.body.layout_eq hn ((hbase.append hu).append hu)
    (hn.append (hbase.append hu))
  rw [Statement.layout, hout, Option.map_some, h.head, h.text, hbody]
  simp

/-- What is read in the place of a statement is laid out, if it has properties at all. -/
theorem Statement.Remade.laidOut {m m' : Statement} {old new : Text}
    (h : m.Remade style newline base old m' new) (hv : Hash.Valued m.body)
    (hp : Hash.properties m'.body ≠ []) : m'.LaidOut style newline base new := by
  cases h with
  | same hnil => exact absurd hnil hp
  | @relaid out new hout hnew =>
    refine ⟨trimRight_trimRight m.head, ?_, ?_⟩
    · rw [← List.append_assoc newline base]
      exact Hash.laidOut_of_layout hv hout (newline ++ base ++ style.indentUnit)
    · rw [layout, hout] at hnew
      cases hnew
      simp [Statement.relaid]

/-- The last line of its literal shows the indentation of a statement that was laid out. -/
theorem Statement.Remade.isSuffix {m m' : Statement} {old new : Text}
    (h : m.Remade style newline base old m' new) (hp : Hash.properties m'.body ≠ []) :
    newline ++ (base ++ style.indentUnit) <:+ m'.body := by
  cases h with
  | same hnil => exact absurd hnil hp
  | relaid _ _ =>
    rw [← List.append_assoc newline base]
    exact List.suffix_append _ _

/-! ## Documents -/

/-- Every statement with properties is laid out, at some indentation. -/
def Done (style : Style) (newline s : Text) : Prop :=
  ∀ (a t b : Text) (m : Statement), s = a ++ (t ++ b) → m.Spelled t →
    Hash.properties m.body ≠ [] →
    ∃ base, (∀ c ∈ base, c = ' ' ∨ c = '\t') ∧ m.LaidOut style newline base t

/-- A scan finds every text that is written as a statement, at its place. -/
theorem mem_locate_of_spelled {last : Option Char} {s : Text} {pieces : List (Piece Statement)}
    (hs : Scans (Statement.read .block) last s pieces) {m : Statement} {t : Text}
    (h : m.Spelled t) {a b : Text} (he : s = a ++ (t ++ b)) (i : Nat) :
    ⟨i + a.length, m, t⟩ ∈ locate i pieces := by
  induction hs generalizing a i with
  | nil =>
    have ht : t = [] := (List.append_eq_nil_iff.mp (List.append_eq_nil_iff.mp he.symm).2).1
    exact absurd ht h.ne_nil
  | @plain last c s pieces hr _ ih =>
    cases a with
    | nil =>
      rw [he, List.nil_append, Statement.read_iff.mpr ⟨t, h, rfl⟩] at hr
      cases hr
    | cons d a =>
      have hmem := ih (List.cons.inj he).2 (i + 1)
      rwa [Nat.add_assoc, Nat.add_comm 1] at hmem
  | @found last value old rest pieces _ hr _ ih =>
    cases a with
    | nil =>
      have hread : Statement.read .block last (old ++ rest) = some (m, b) :=
        Statement.read_iff.mpr ⟨t, h, he⟩
      rw [hr] at hread
      cases hread
      rw [List.append_cancel_right he]
      exact List.mem_cons_self
    | cons d a =>
      -- no statement starts inside of another one
      obtain ⟨x, y, z, ht, hx, _⟩ := h.braces
      obtain ⟨u, hu⟩ := (Statement.Spelled.of_read rfl hr).prefix_of_append_eq
        (g := d :: a) (a := x) (y := y ++ '}' :: (z ++ '}' :: b)) (List.cons_ne_nil d a) hx
        (by rw [he, ht]; simp)
      rw [hu, List.append_assoc] at he
      have hmem := ih (List.append_cancel_left he) (i + old.length)
      rw [Nat.add_assoc, ← List.length_append, ← hu] at hmem
      exact List.mem_cons_of_mem _ hmem

theorem done_layout (hb : style.block = .block) (hn : Blank newline) (hu : Blank style.indentUnit)
    {s : Text}
    (hv : ∀ f ∈ locate 0 (scan (Statement.read style.block) s), Hash.Valued f.value.body) :
    Done style newline (layout style newline s).1 := by
  intro a t b m he hm hp
  have hmem : .found m t ∈ scan (Statement.read style.block) (layout style newline s).1 := by
    rw [hb]
    exact mem_of_mem_locate
      (mem_locate_of_spelled (scans_scan (Statement.read_consumes .block) _) hm he 0)
  obtain ⟨f, hf, hmade⟩ := (rescan_layout hb hn hu s).exists_of_mem hmem
  exact ⟨indentationAt s f.start, indentation_all _, hmade.laidOut (hv f hf) hp⟩

theorem spelled_of_mem_locate (hb : style.block = .block) {s : Text} {f : Located Statement}
    (hf : f ∈ locate 0 (scan (Statement.read style.block) s)) : f.value.Spelled f.text := by
  obtain ⟨last, rest, hr⟩ :=
    read_of_mem_scanFrom (Statement.read_consumes style.block) (mem_of_mem_locate hf)
  exact .of_read hb hr

/-- Laying out leaves a document that is done as it is exactly if the last line of each literal
shows the indentation of its statement. -/
theorem layout_eq_self_iff (hb : style.block = .block) (hn : Blank newline)
    (hnl : ['\n'] <:+ newline) (hu : ∀ c ∈ style.indentUnit, c = ' ' ∨ c = '\t') {s : Text}
    (hdone : Done style newline s) :
    (layout style newline s).1 = s ↔
      ∀ f ∈ locate 0 (scan (Statement.read style.block) s), Hash.properties f.value.body ≠ [] →
        newline ++ (indentationAt s f.start ++ style.indentUnit) <:+ f.value.body := by
  constructor
  · intro hself f hf hp
    have hmade := rescan_layout hb hn (blank_of_space_or_tab hu) s
    rw [hself] at hmade
    exact (hmade.of_self f hf).isSuffix hp
  intro hs
  have hspaces : ∀ {b : Text}, (∀ c ∈ b, c = ' ' ∨ c = '\t') →
      '\n' ∉ b ++ style.indentUnit := by
    intro b hb hm
    rcases List.mem_append.mp hm with hm | hm
    · exact absurd (hb _ hm) (by decide)
    · exact absurd (hu _ hm) (by decide)
  rw [layout, layoutPieces_flatMap, replacePieces_eq_flatMap, flatMap_text_scan]
  intro f hf
  cases hl : f.value.layout style newline (indentationAt s f.start) with
  | none => rfl
  | some new =>
    obtain ⟨out, hout, _⟩ := Option.map_eq_some_iff.mp hl
    have hp := (Hash.layout_eq_some_iff.mp hout).1
    obtain ⟨u, hs', _⟩ := exists_take_append hf
    obtain ⟨base, hbase, hlaid⟩ := hdone _ f.text u f.value hs' (spelled_of_mem_locate hb hf) hp
    have heq : indentationAt s f.start = base := List.append_cancel_right
      (hlaid.body.eq_of_suffix hnl (hspaces hbase) (hspaces (indentation_all _)) (hs f hf hp))
    have hnew := hlaid.layout_eq hn (blank_of_space_or_tab hbase) (blank_of_space_or_tab hu)
    rw [heq, hnew] at hl
    exact (Option.some.inj hl).symm

/-! ## Statements that start their line -/

/-- Nothing but spaces and tabs stands before the offset on its line. -/
def StartsLine (s : Text) (i : Nat) : Prop := ∀ c ∈ lastLine (s.take i), c = ' ' ∨ c = '\t'

instance (s : Text) (i : Nat) : Decidable (StartsLine s i) :=
  List.decidableBAll (fun c => c = ' ' ∨ c = '\t') (lastLine (s.take i))

/-- The indentation of a statement that starts its line is all that stands before it. -/
theorem indentationAt_of_startsLine (hb : style.block = .block) {s : Text} {f : Located Statement}
    (hf : f ∈ locate 0 (scan (Statement.read style.block) s)) (h : StartsLine s f.start) :
    indentationAt s f.start = lastLine (s.take f.start) := by
  obtain ⟨u, hs, hlen⟩ := exists_take_append hf
  obtain ⟨a, b, c, ht, _⟩ := (spelled_of_mem_locate hb hf).braces
  have hbase := indentationAt_append (s.take f.start) (f.text ++ u)
  rwa [← hs, hlen, ht, List.cons_append, indentation_append_cons (by decide) (by decide),
    indentation_eq_self h] at hbase

/-- The last line of the new text `b` is that of the old text `a` as long as nothing but spaces and
tabs is on it. -/
def Aligned (a b : Text) : Prop := (∀ c ∈ lastLine a, c = ' ' ∨ c = '\t') → lastLine b = lastLine a

theorem Aligned.concat {a b : Text} (h : Aligned a b) (c : Char) :
    Aligned (a ++ [c]) (b ++ [c]) := by
  intro hc
  by_cases hfeed : c = '\n'
  · rw [hfeed, lastLine_append_feed List.not_mem_nil, lastLine_append_feed List.not_mem_nil]
  · have hone : '\n' ∉ [c] := fun hm => hfeed (List.mem_singleton.mp hm).symm
    rw [lastLine_append hone] at hc
    rw [lastLine_append hone, lastLine_append hone, h fun d hd => hc d (List.mem_append_left _ hd)]

/-- Behind a statement its closing marker is on the line. -/
theorem Statement.Spelled.aligned {m : Statement} {t : Text} (h : m.Spelled t) (a b : Text) :
    Aligned (a ++ t) b := by
  obtain ⟨x, y, z, rfl, _⟩ := h.braces
  have hsplit : a ++ '{' :: (x ++ '{' :: (y ++ '}' :: (z ++ ['}']))) =
      (a ++ '{' :: (x ++ '{' :: (y ++ '}' :: z))) ++ ['}'] := by simp
  intro hc
  rw [hsplit, lastLine_append (by decide)] at hc
  exact absurd (hc '}' (List.mem_append_right _ List.mem_cons_self)) (by decide)

/-- If all statements start their lines, each statement of the new document starts its line at the
indentation of the one that it took the place of. -/
theorem exists_remade_of_startsLine (hb : style.block = .block) (hn : Blank newline)
    (hu : Blank style.indentUnit) {s t : Text} (ht : (layout style newline s).1 = t)
    (hstart : ∀ f ∈ locate 0 (scan (Statement.read style.block) s), StartsLine s f.start) :
    ∀ g ∈ locate 0 (scan (Statement.read style.block) t),
      ∃ f ∈ locate 0 (scan (Statement.read style.block) s),
        f.value.Remade style newline (indentationAt s f.start) f.text g.value g.text ∧
          lastLine (t.take g.start) = lastLine (s.take f.start) := by
  have hmade := rescan_layout hb hn hu s
  rw [ht] at hmade
  intro g hg
  obtain ⟨f, hf, hmade, hline⟩ := hmade.exists_before Aligned (a := []) (b := []) rfl
    (flatMap_text_scan _ s).symm (flatMap_text_scan _ t).symm (fun _ => rfl)
    (fun _ _ c hab => hab.concat c)
    (fun f hf b _ new _ _ => (spelled_of_mem_locate hb hf).aligned _ _) g hg
  exact ⟨f, hf, hmade, hline (hstart f hf)⟩

/-- Every statement with properties starts its line, and is laid out at the indentation of it. -/
def InPlace (style : Style) (newline s : Text) : Prop :=
  ∀ (a t b : Text) (m : Statement), s = a ++ (t ++ b) → m.Spelled t →
    Hash.properties m.body ≠ [] →
    (∀ c ∈ lastLine a, c = ' ' ∨ c = '\t') ∧ m.LaidOut style newline (lastLine a) t

theorem inPlace_layout (hb : style.block = .block) (hn : Blank newline)
    (hu : Blank style.indentUnit) {s : Text}
    (hstart : ∀ f ∈ locate 0 (scan (Statement.read style.block) s), StartsLine s f.start)
    (hv : ∀ f ∈ locate 0 (scan (Statement.read style.block) s), Hash.Valued f.value.body) :
    InPlace style newline (layout style newline s).1 := by
  intro a t b m he hm hp
  have hscan := scans_scan (Statement.read_consumes style.block) (layout style newline s).1
  rw [hb] at hscan
  have hmem := mem_locate_of_spelled hscan hm he 0
  rw [Nat.zero_add, ← hb] at hmem
  obtain ⟨f, hf, hmade, hline⟩ := exists_remade_of_startsLine hb hn hu rfl hstart _ hmem
  dsimp only at hmade hline
  rw [he, List.take_left] at hline
  have hlaid := hmade.laidOut (hv f hf) hp
  rw [indentationAt_of_startsLine hb hf (hstart f hf), ← hline] at hlaid
  exact ⟨hline ▸ hstart f hf, hlaid⟩

/-- The last line of each literal shows the indentation of its statement. -/
theorem InPlace.isSuffix (hb : style.block = .block) {s : Text} (h : InPlace style newline s)
    {f : Located Statement} (hf : f ∈ locate 0 (scan (Statement.read style.block) s))
    (hp : Hash.properties f.value.body ≠ []) :
    newline ++ (indentationAt s f.start ++ style.indentUnit) <:+ f.value.body := by
  obtain ⟨u, hs, _⟩ := exists_take_append hf
  obtain ⟨hstart, hlaid⟩ := h _ f.text u f.value hs (spelled_of_mem_locate hb hf) hp
  obtain ⟨props, _, _, _, hbody⟩ := hlaid.body
  rw [indentationAt_of_startsLine hb hf hstart, hbody]
  exact List.suffix_append _ _

/-- Laying out leaves a document in which each statement started its line as it laid it out. -/
theorem relayout_of_startsLine (hb : style.block = .block)
    (hn : newline = "\n".toList ∨ newline = "\r\n".toList)
    (hu : ∀ c ∈ style.indentUnit, c = ' ' ∨ c = '\t') {s : Text}
    (hstart : ∀ f ∈ locate 0 (scan (Statement.read style.block) s), StartsLine s f.start)
    (hv : ∀ f ∈ locate 0 (scan (Statement.read style.block) s), Hash.Valued f.value.body) :
    (layout style newline (layout style newline s).1).1 = (layout style newline s).1 := by
  have hblank := blank_of_newline hn
  have hfeed := feed_isSuffix_of_newline hn
  have hunit := blank_of_space_or_tab hu
  refine (layout_eq_self_iff hb hblank hfeed hu (done_layout hb hblank hunit hv)).mpr ?_
  exact fun g hg hp => (inPlace_layout hb hblank hunit hstart hv).isSuffix hb hg hp

/-- Two statements at different indentations, the second one with a property on two lines. -/
theorem relayout_of_startsLine_indented :
    let s := "\x7b% set a = b |merge(\x7bx: 1, y: 2\x7d) %\x7d\n".toList ++
      "\t \x7b%- set c = d|merge(\x7bz: f(1,\n2)\x7d)%\x7d".toList
    let t := "\x7b% set a = b|merge(\x7b\n        'x': 1,\n        'y': 2\n    \x7d) %\x7d\n".toList ++
      "\t \x7b%- set c = d|merge(\x7b\n\t         'z': f(1,\n2)\n\t     \x7d) %\x7d".toList
    (layout .default "\n".toList s).1 = t ∧ (layout .default "\n".toList t).1 = t := by
  intro s t
  have ht : (layout .default "\n".toList s).1 = t := by decide +kernel
  have h := @relayout_of_startsLine .default "\n".toList rfl (.inl rfl) (forall_of_all (by decide)) s
    (by decide +kernel) (by decide +kernel)
  rw [ht] at h
  exact ⟨ht, h⟩

end TwigLayout.Merge
