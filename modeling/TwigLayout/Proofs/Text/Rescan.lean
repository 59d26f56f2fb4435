import Mathlib.Data.List.Forall2
import Mathlib.Data.List.Infix
import TwigLayout.Proofs.Text.Runs

/-!
# Scanning a text that was rewritten

`Scans` is the scan of a text as a relation, finding by finding. A scan of the text in which each
finding was replaced has the same characters outside of its findings, and findings that match the
old ones one by one (`Remade`, `Scans.rescan`), if

* the reader reads each replacement, whatever follows it, and
* it still reads nothing where it read nothing.

Splitting is a scan as well, so what `splitOn` cuts off is read from `Scans` (section "Splitting").
-/

namespace TwigLayout.Text

variable {α : Type} {read : Reader α}

/-- The scan of a text behind the character `last`. -/
inductive Scans (read : Reader α) : Option Char → Text → List (Piece α) → Prop
  | nil (last : Option Char) : Scans read last [] []
  | plain {last : Option Char} {c : Char} {s : Text} {pieces : List (Piece α)} :
      read last (c :: s) = none → Scans read (some c) s pieces →
      Scans read last (c :: s) (.plain c :: pieces)
  | found {last : Option Char} {value : α} {t rest : Text} {pieces : List (Piece α)} :
      t ≠ [] → read last (t ++ rest) = some (value, rest) → Scans read t.getLast? rest pieces →
      Scans read last (t ++ rest) (.found value t :: pieces)

theorem Scans.scanFrom_eq {last : Option Char} {s : Text} {pieces : List (Piece α)}
    (h : Scans read last s pieces) : scanFrom read 0 last s = pieces := by
  induction h with
  | nil => rfl
  | plain hr _ ih => simp only [scanFrom, hr, ih]
  | @found last value t rest pieces hne hr _ ih =>
    obtain ⟨c, t, rfl⟩ := List.exists_cons_of_ne_nil hne
    have hr' : read last (c :: (t ++ rest)) = some (value, rest) := hr
    have hmore : (t ++ rest).length - rest.length = t.length := by simp
    have hlast : t.getLast?.or (some c) = (c :: t).getLast? := by
      rw [List.getLast?_cons]
      cases t.getLast? <;> rfl
    simp only [List.cons_append, scanFrom, hr', hmore, List.take_left]
    rw [scanFrom_skip, List.take_left, List.drop_left, hlast, ih]

theorem scans_scanFrom (hread : read.Consumes) (last : Option Char) (s : Text) :
    Scans read last s (scanFrom read 0 last s) := by
  induction hn : s.length using Nat.strongRecOn generalizing s last with
  | ind n ih =>
    cases s with
    | nil => exact .nil last
    | cons c s =>
      cases hr : read last (c :: s) with
      | none =>
        have hscan : scanFrom read 0 last (c :: s) = .plain c :: scanFrom read 0 (some c) s := by
          simp only [scanFrom, hr]
        rw [hscan]
        exact .plain hr (ih s.length (by rw [← hn]; simp) _ s rfl)
      | some finding =>
        obtain ⟨value, rest⟩ := finding
        obtain ⟨t, hne, hs⟩ := hread _ _ _ _ hr
        rw [hs] at hr ⊢
        have hlt : rest.length < n := by
          have hlen := congrArg List.length hs
          have hpos := List.length_pos_iff.mpr hne
          rw [List.length_append] at hlen
          omega
        have h : Scans read last (t ++ rest) (.found value t :: _) :=
          .found hne hr (ih rest.length hlt _ rest rfl)
        rw [h.scanFrom_eq]
        exact h

theorem scans_scan (hread : read.Consumes) (s : Text) : Scans read none s (scan read s) :=
  scans_scanFrom hread none s

theorem Scans.flatMap_text {last : Option Char} {s : Text} {pieces : List (Piece α)}
    (h : Scans read last s pieces) : pieces.flatMap Piece.text = s := by
  induction h with
  | nil => rfl
  | @plain _ c _ _ _ _ ih => exact congrArg (c :: ·) ih
  | @found _ _ t _ _ _ _ _ ih => exact congrArg (t ++ ·) ih

/-- Nothing is read at a plain character. -/
theorem Scans.exists_read_eq_none {last : Option Char} {s : Text} {before after : List (Piece α)}
    {c : Char} (h : Scans read last s (before ++ .plain c :: after)) :
    ∃ last, read last (c :: after.flatMap Piece.text) = none := by
  induction before generalizing last s with
  | nil =>
    cases h with
    | plain hr hs =>
      rw [hs.flatMap_text]
      exact ⟨last, hr⟩
  | cons piece before ih =>
    cases h with
    | plain _ hs => exact ih hs
    | found _ _ hs => exact ih hs

/-- A text without findings, or the characters before the first of them. -/
theorem Scans.eq_or_exists_found {last : Option Char} {s : Text} {pieces : List (Piece α)}
    (h : Scans read last s pieces) (f : Located α → Option Text) (i : Nat) :
    replacePieces f i pieces = s ∨ ∃ a j last' value old rest rest',
      read last' (old ++ rest) = some (value, rest) ∧ s = a ++ (old ++ rest) ∧
        replacePieces f i pieces = a ++ ((f ⟨j, value, old⟩).getD old ++ rest') := by
  induction h generalizing i with
  | nil => exact .inl rfl
  | @plain last c s pieces _ _ ih =>
    rcases ih (i + 1) with h | ⟨a, j, last', value, old, rest, rest', hr, hs, h⟩
    · exact .inl (congrArg (c :: ·) h)
    · exact .inr ⟨c :: a, j, last', value, old, rest, rest', hr, congrArg (c :: ·) hs,
        congrArg (c :: ·) h⟩
  | @found last value old rest pieces _ hr _ _ =>
    exact .inr ⟨[], i, last, value, old, rest, _, hr, rfl, rfl⟩

theorem mem_of_mem_locate {i : Nat} {pieces : List (Piece α)} {f : Located α}
    (h : f ∈ locate i pieces) : .found f.value f.text ∈ pieces := by
  fun_induction locate i pieces with
  | case1 => exact absurd h List.not_mem_nil
  | case2 i c pieces ih => exact List.mem_cons_of_mem _ (ih h)
  | case3 i value t pieces ih =>
    rcases List.mem_cons.mp h with rfl | h
    · exact List.mem_cons_self
    · exact List.mem_cons_of_mem _ (ih h)

/-- A finding stands in the text at its offset. -/
theorem exists_append_of_mem_locate {pieces : List (Piece α)} {f : Located α} {a : Text}
    (h : f ∈ locate a.length pieces) :
    ∃ x y, a ++ pieces.flatMap Piece.text = x ++ (f.text ++ y) ∧ x.length = f.start := by
  induction pieces generalizing a with
  | nil => exact absurd h List.not_mem_nil
  | cons piece pieces ih =>
    cases piece with
    | plain c =>
      have hlen : a.length + 1 = (a ++ [c]).length := by simp
      rw [locate, hlen] at h
      rw [List.flatMap_cons, ← List.append_assoc]
      exact ih h
    | found value t =>
      have hlen : a.length + t.length = (a ++ t).length := by simp
      rw [locate, hlen] at h
      rw [List.flatMap_cons]
      rcases List.mem_cons.mp h with rfl | h
      · exact ⟨a, _, rfl, rfl⟩
      · rw [← List.append_assoc]
        exact ih h

/-- What stands before a finding of a scan, and behind it. -/
theorem exists_take_append {s : Text} {f : Located α} (h : f ∈ locate 0 (scan read s)) :
    ∃ u, s = s.take f.start ++ (f.text ++ u) ∧ (s.take f.start).length = f.start := by
  obtain ⟨a, u, hs, ha⟩ := exists_append_of_mem_locate (a := []) h
  rw [List.nil_append, flatMap_text_scan] at hs
  have htake : s.take f.start = a := by rw [hs, ← ha, List.take_left]
  exact ⟨u, by rw [htake, hs], by rw [htake, ha]⟩

/-- Findings that are replaced by themselves leave the text as it is. -/
theorem replacePieces_eq_flatMap {f : Located α → Option Text} {i : Nat} {pieces : List (Piece α)}
    (h : ∀ g ∈ locate i pieces, (f g).getD g.text = g.text) :
    replacePieces f i pieces = pieces.flatMap Piece.text := by
  induction pieces generalizing i with
  | nil => rfl
  | cons piece pieces ih =>
    cases piece with
    | plain c => exact congrArg (c :: ·) (ih h)
    | found value t =>
      have ht : (f ⟨i, value, t⟩).getD t = t := h _ List.mem_cons_self
      rw [replacePieces, ht, ih fun g hg => h g (List.mem_cons_of_mem _ hg)]
      rfl

/-! ## Rewriting -/

/-- The pieces of a text, and those of the text in which findings were replaced. Behind a finding
`f`, `made f value t` says that `value` is found in its place, with the text `t`. -/
inductive Remade (made : Located α → α → Text → Prop) :
    (offset : Nat) → List (Piece α) → List (Piece α) → Prop
  | nil (i : Nat) : Remade made i [] []
  | plain {i : Nat} {c : Char} {pieces pieces' : List (Piece α)} : Remade made (i + 1) pieces pieces' →
      Remade made i (.plain c :: pieces) (.plain c :: pieces')
  | found {i : Nat} {value value' : α} {old new : Text} {pieces pieces' : List (Piece α)} :
      made ⟨i, value, old⟩ value' new → Remade made (i + old.length) pieces pieces' →
      Remade made i (.found value old :: pieces) (.found value' new :: pieces')

section Remade

variable {made : Located α → α → Text → Prop} {i : Nat} {pieces pieces' : List (Piece α)}

/-- The characters outside of the findings are the same. -/
theorem Remade.fields_eq (h : Remade made i pieces pieces') : fields pieces' = fields pieces := by
  induction h with
  | nil => rfl
  | plain _ ih => simp only [fields, ih]
  | found _ _ ih => simp only [fields, ih]

theorem Remade.forall₂ (h : Remade made i pieces pieces') {same : Located α → Located α → Prop}
    (hsame : ∀ f j value new, made f value new → same f ⟨j, value, new⟩) (j : Nat) :
    List.Forall₂ same (locate i pieces) (locate j pieces') := by
  induction h generalizing j with
  | nil => exact .nil
  | plain _ ih => exact ih (j + 1)
  | found hm _ ih => exact .cons (hsame _ _ _ _ hm) (ih _)

theorem Remade.exists_of_mem (h : Remade made i pieces pieces') {value' : α} {new : Text}
    (hm : .found value' new ∈ pieces') :
    ∃ f, f ∈ locate i pieces ∧ made f value' new := by
  induction h with
  | nil => exact absurd hm List.not_mem_nil
  | plain _ ih => exact ih (by simpa using hm)
  | found hmade _ ih =>
    rcases List.mem_cons.mp hm with he | hm
    · cases he
      exact ⟨_, List.mem_cons_self, hmade⟩
    · obtain ⟨f, hf, hmade⟩ := ih hm
      exact ⟨f, List.mem_cons_of_mem _ hf, hmade⟩

/-- The texts before two findings that match are in a relation that holds of what stands before the
pieces, `a` and `b`, and that each character and each finding carries over. -/
theorem Remade.exists_before (h : Remade made i pieces pieces') (rel : Text → Text → Prop)
    {s t a b : Text} (hi : a.length = i) (hs : s = a ++ pieces.flatMap Piece.text)
    (ht : t = b ++ pieces'.flatMap Piece.text) (hab : rel a b)
    (hplain : ∀ a b c, rel a b → rel (a ++ [c]) (b ++ [c]))
    (hfound : ∀ f ∈ locate i pieces, ∀ b value new, made f value new → rel (s.take f.start) b →
      rel (s.take f.start ++ f.text) (b ++ new)) :
    ∀ g ∈ locate b.length pieces', ∃ f ∈ locate i pieces, made f g.value g.text ∧
      rel (s.take f.start) (t.take g.start) := by
  induction h generalizing a b with
  | nil => exact fun g hg => absurd hg List.not_mem_nil
  | @plain i c pieces pieces' _ ih =>
    have hlen : b.length + 1 = (b ++ [c]).length := by simp
    rw [locate, hlen]
    exact ih (a := a ++ [c]) (by simp [hi]) (by simp [hs, Piece.text]) (by simp [ht, Piece.text])
      (hplain a b c hab) hfound
  | @found i value value' old new pieces pieces' hmade _ ih =>
    have hlen : b.length + new.length = (b ++ new).length := by simp
    have hold : s.take i = a := by rw [hs, ← hi, List.take_left]
    have hnew : t.take b.length = b := by rw [ht, List.take_left]
    rw [locate, hlen]
    refine List.forall_mem_cons.mpr ⟨⟨_, List.mem_cons_self, hmade, ?_⟩, fun g hg => ?_⟩
    · dsimp only
      rwa [hold, hnew]
    · have hrel := hfound _ List.mem_cons_self b value' new hmade (by rwa [hold])
      dsimp only at hrel
      rw [hold] at hrel
      obtain ⟨f, hf, hm⟩ := ih (a := a ++ old) (by simp [hi]) (by simp [hs, Piece.text])
        (by simp [ht, Piece.text]) hrel (fun f hf => hfound f (List.mem_cons_of_mem _ hf)) g hg
      exact ⟨f, List.mem_cons_of_mem _ hf, hm⟩

/-- Findings that were replaced by themselves. -/
theorem Remade.of_self (h : Remade made i pieces pieces) :
    ∀ f ∈ locate i pieces, made f f.value f.text := by
  induction pieces generalizing i with
  | nil => exact fun f hf => absurd hf List.not_mem_nil
  | cons piece pieces ih =>
    cases h with
    | plain h => exact ih h
    | found hmade h => exact List.forall_mem_cons.mpr ⟨hmade, ih h⟩

end Remade

section Rescan

variable {f : Located α → Option Text} (like : Option Char → Option Char → Prop)
  {made : Located α → α → Text → Prop}

/-- The scan of a text whose findings were replaced. What the reader does may depend on the
character before a place only up to `like`. -/
theorem Scans.rescan (hchar : ∀ c, like (some c) (some c))
    (hfound : ∀ {i : Nat} {last last' : Option Char} {value : α} {old rest : Text},
      like last last' → read last (old ++ rest) = some (value, rest) →
      ∃ value' new, (f ⟨i, value, old⟩).getD old = new ∧ new ≠ [] ∧
        like old.getLast? new.getLast? ∧ made ⟨i, value, old⟩ value' new ∧
        ∀ rest', read last' (new ++ rest') = some (value', rest'))
    (hplain : ∀ {i : Nat} {last last' : Option Char} {c : Char} {s : Text}
      {pieces : List (Piece α)}, like last last' → read last (c :: s) = none →
      Scans read (some c) s pieces → read last' (c :: replacePieces f i pieces) = none)
    {last last' : Option Char} {s : Text} {pieces : List (Piece α)}
    (h : Scans read last s pieces) (hl : like last last') (i : Nat) :
    ∃ pieces', Scans read last' (replacePieces f i pieces) pieces' ∧
      Remade made i pieces pieces' := by
  induction h generalizing last' i with
  | nil => exact ⟨[], .nil _, .nil i⟩
  | @plain last c s pieces hr hs ih =>
    obtain ⟨pieces', hs', hmade⟩ := ih (hchar c) (i + 1)
    exact ⟨.plain c :: pieces', .plain (hplain hl hr hs) hs', .plain hmade⟩
  | @found last value old rest pieces _ hr _ ih =>
    obtain ⟨value', new, hnew, hne, hlike, hmade, hread⟩ := hfound (i := i) hl hr
    obtain ⟨pieces', hs', hrest⟩ := ih hlike (i + old.length)
    refine ⟨.found value' new :: pieces', ?_, .found hmade hrest⟩
    rw [replacePieces, hnew]
    exact .found hne (hread _) hs'

/-- `Scans.rescan` for the scan of a whole text. -/
theorem scan_replacePieces (hread : read.Consumes) (hnone : like none none)
    (hchar : ∀ c, like (some c) (some c))
    (hfound : ∀ {i : Nat} {last last' : Option Char} {value : α} {old rest : Text},
      like last last' → read last (old ++ rest) = some (value, rest) →
      ∃ value' new, (f ⟨i, value, old⟩).getD old = new ∧ new ≠ [] ∧
        like old.getLast? new.getLast? ∧ made ⟨i, value, old⟩ value' new ∧
        ∀ rest', read last' (new ++ rest') = some (value', rest'))
    (hplain : ∀ {i : Nat} {last last' : Option Char} {c : Char} {s : Text}
      {pieces : List (Piece α)}, like last last' → read last (c :: s) = none →
      Scans read (some c) s pieces → read last' (c :: replacePieces f i pieces) = none)
    (s : Text) :
    Remade made 0 (scan read s) (scan read (replacePieces f 0 (scan read s))) := by
  obtain ⟨pieces', hs', hmade⟩ := (scans_scan hread s).rescan like hchar hfound hplain hnone 0
  rw [← hs'.scanFrom_eq] at hmade
  exact hmade

end Rescan

/-! ## Splitting -/

theorem not_infix_of_mem_splitOn {sep s l : Text} (hne : sep ≠ []) (h : l ∈ splitOn sep s) :
    ¬ sep <:+: l := by
  -- what the first field starts with, the text starts with
  have hfields : ∀ {last : Option Char} {s : Text} {pieces : List (Piece Unit)},
      Scans (literal sep) last s pieces → ∃ field rest, fields pieces = field :: rest ∧
        field <+: s ∧ ∀ l ∈ field :: rest, ¬ sep <:+: l := by
    intro last s pieces hs
    have hnil : ¬ sep <:+: [] := fun hi => hne (List.infix_nil.mp hi)
    induction hs with
    | nil => exact ⟨[], [], rfl, List.nil_prefix, List.forall_mem_singleton.mpr hnil⟩
    | @plain last d s pieces hr _ ih =>
      obtain ⟨field, rest, hf, hprefix, hall⟩ := ih
      obtain ⟨hfield, hrest⟩ := List.forall_mem_cons.mp hall
      have hd : d :: field <+: d :: s := List.cons_prefix_cons.mpr ⟨rfl, hprefix⟩
      refine ⟨d :: field, rest, by simp only [fields, hf], hd, ?_⟩
      refine List.forall_mem_cons.mpr ⟨fun hi => ?_, hrest⟩
      rcases List.infix_cons_iff.mp hi with hi | hi
      · have hnone : after? sep (d :: s) = none := Option.map_eq_none_iff.mp hr
        exact after?_eq_none_iff.mp hnone (hi.trans hd)
      · exact hfield hi
    | @found _ _ _ _ pieces _ _ _ ih =>
      obtain ⟨field, rest, hf, _, hall⟩ := ih
      refine ⟨[], field :: rest, by simp only [fields, hf], List.nil_prefix, ?_⟩
      exact List.forall_mem_cons.mpr ⟨hnil, hall⟩
  obtain ⟨field, rest, hf, _, hall⟩ := hfields (scans_scan (literal_consumes hne) s)
  rw [splitOn, hf] at h
  exact hall l h

theorem not_mem_of_mem_splitOn {c : Char} {s l : Text} (h : l ∈ splitOn [c] s) : c ∉ l := fun hm =>
  not_infix_of_mem_splitOn (List.cons_ne_nil _ _) h ((List.singleton_infix_iff _ _).mpr hm)

theorem two_le_length_splitOn {sep s : Text} (hne : sep ≠ []) (h : sep <:+: s) :
    2 ≤ (splitOn sep s).length := by
  have hscans : ∀ {last : Option Char} {s : Text} {pieces : List (Piece Unit)},
      Scans (literal sep) last s pieces → sep <:+: s → 2 ≤ (fields pieces).length := by
    intro last s pieces hs h
    induction hs with
    | nil => exact absurd (List.infix_nil.mp h) hne
    | @plain last d s pieces hr _ ih =>
      obtain ⟨field, rest, hf⟩ := List.exists_cons_of_ne_nil (fields_ne_nil pieces)
      rcases List.infix_cons_iff.mp h with h | h
      · have hnone : after? sep (d :: s) = none := Option.map_eq_none_iff.mp hr
        exact absurd h (after?_eq_none_iff.mp hnone)
      · have ih := ih h
        simp only [fields, hf, List.length_cons] at ih ⊢
        exact ih
    | @found _ _ _ _ pieces _ _ _ _ =>
      have hlen := List.length_pos_of_ne_nil (fields_ne_nil pieces)
      simp only [fields, List.length_cons]
      omega
  exact hscans (scans_scan (literal_consumes hne) s) h

section Parts

variable {sep s : Text}

theorem splitOn_cons {c : Char} (h : ¬ sep <+: c :: s) :
    splitOn sep (c :: s) = (splitOn sep s).modifyHead (c :: ·) := by
  have hr : literal sep none (c :: s) = none := by
    simp [literal, after?_eq_none_iff.mpr h]
  rw [splitOn, splitOn, scan, scan, scanFrom, hr]
  dsimp only
  rw [scanFrom_literal_last sep 0 (some c) none, fields]
  obtain ⟨field, rest, hf⟩ :=
    List.exists_cons_of_ne_nil (fields_ne_nil (scanFrom (literal sep) 0 none s))
  simp only [hf, List.modifyHead_cons]

theorem splitOn_of_not_infix (h : ¬ sep <:+: s) : splitOn sep s = [s] := by
  induction s with
  | nil => rfl
  | cons c s ih =>
    have ih := ih fun hi => h (List.infix_cons hi)
    rw [splitOn_cons fun hp => h hp.isInfix, ih, List.modifyHead_cons]

/-- A text without the separator, of one character, goes to the first part. -/
theorem splitOn_append_of_not_mem {c : Char} {a : Text} (h : c ∉ a) (b : Text) :
    splitOn [c] (a ++ b) = (splitOn [c] b).modifyHead (a ++ ·) := by
  induction a with
  | nil => exact (congrFun List.modifyHead_id _).symm
  | cons d a ih =>
    obtain ⟨hd, ha⟩ : c ≠ d ∧ c ∉ a := by simpa using h
    have hsep : ¬ [c] <+: d :: (a ++ b) := fun hp => hd (List.cons_prefix_cons.mp hp).1
    rw [List.cons_append, splitOn_cons hsep, ih ha, List.modifyHead_modifyHead]
    rfl

theorem splitOn_append_self (hne : sep ≠ []) (s : Text) :
    splitOn sep (sep ++ s) = [] :: splitOn sep s := by
  have hscans : Scans (literal sep) none (sep ++ s)
      (.found () sep :: scanFrom (literal sep) 0 sep.getLast? s) := by
    refine .found hne ?_ (scans_scanFrom (literal_consumes hne) _ s)
    simp [literal, after?_append]
  rw [splitOn, splitOn, scan, scan, hscans.scanFrom_eq, fields,
    scanFrom_literal_last sep 0 sep.getLast? none]

/-- The text up to the first separator is a part, and splitting goes on behind it. -/
theorem splitOn_append_self_append (hne : sep ≠ []) {a : Text}
    (h : ¬ sep <:+: a ++ sep.dropLast) (b : Text) :
    splitOn sep (a ++ sep ++ b) = a :: splitOn sep b := by
  induction a with
  | nil => simpa using splitOn_append_self hne b
  | cons c a ih =>
    have ih := ih fun hi => h (List.infix_cons hi)
    rw [List.cons_append, List.cons_append, splitOn_cons (not_prefix_cons_append h b), ih,
      List.modifyHead_cons]

/-- Splitting undoes putting together: parts that hold no separator, also not one that the next
separator completes, come back. -/
theorem splitOn_intercalate (hne : sep ≠ []) {parts : List Text} (hparts : parts ≠ [])
    (h : ∀ part ∈ parts, ¬ sep <:+: part ++ sep.dropLast) :
    splitOn sep (sep.intercalate parts) = parts := by
  induction parts with
  | nil => exact absurd rfl hparts
  | cons part parts ih =>
    obtain ⟨hpart, hrest⟩ := List.forall_mem_cons.mp h
    cases parts with
    | nil =>
      rw [List.intercalate_singleton]
      exact splitOn_of_not_infix fun hi => hpart (List.infix_append_of_infix_left hi)
    | cons next parts =>
      rw [List.intercalate_cons_cons, splitOn_append_self_append hne hpart,
        ih (List.cons_ne_nil _ _) hrest]

end Parts

end TwigLayout.Text
