import TwigLayout.Text.Basic

/-!
# Scanning a text

A reader looks for something at one place of a text. Scanning tries it at every place from the left
and goes on after what it found, so the findings never overlap. The pieces of a scan always put
together to the text (`flatMap_text_scan`), and each finding is what the reader finds at its place
(`read_of_mem_scanFrom`).
-/

namespace TwigLayout.Text

/-- A reader takes the character before a place, if there is one, and the text from there. It gives
what it found and the rest of the text. -/
abbrev Reader (α : Type) := Option Char → Text → Option (α × Text)

/-- A part of a scanned text: a character outside all findings, or a finding with its text. -/
inductive Piece (α : Type) where
  | plain (c : Char)
  | found (value : α) (text : Text)
  deriving DecidableEq, Repr

def Piece.text {α : Type} : Piece α → Text
  | .plain c => [c]
  | .found _ s => s

variable {α : Type}

/-- The scan of a text whose first `skip` characters belong to the finding before it. A finding has
at least one character. -/
def scanFrom (read : Reader α) : (skip : Nat) → (last : Option Char) → Text → List (Piece α)
  | _, _, [] => []
  | skip + 1, _, c :: s => scanFrom read skip (some c) s
  | 0, last, c :: s =>
    match read last (c :: s) with
    | none => .plain c :: scanFrom read 0 (some c) s
    | some (value, rest) =>
      let more := s.length - rest.length
      .found value (c :: s.take more) :: scanFrom read more (some c) s

/-- The leftmost findings of a reader, with the characters between them. -/
def scan (read : Reader α) (s : Text) : List (Piece α) := scanFrom read 0 none s

theorem flatMap_text_scanFrom (read : Reader α) (skip : Nat) (last : Option Char) (s : Text) :
    (scanFrom read skip last s).flatMap Piece.text = s.drop skip := by
  fun_induction scanFrom read skip last s with
  | case1 => simp
  | case2 skip _ c s ih => simpa using ih
  | case3 last c s _ ih => simpa [Piece.text] using ih
  | case4 last c s value rest _ more ih => simp [Piece.text, ih]

@[simp] theorem flatMap_text_scan (read : Reader α) (s : Text) :
    (scan read s).flatMap Piece.text = s := by
  simp [scan, flatMap_text_scanFrom]

/-- Skipping is dropping: the scan goes on after the skipped characters, the last of which counts as
the character before. -/
theorem scanFrom_skip (read : Reader α) (skip : Nat) (last : Option Char) (s : Text) :
    scanFrom read skip last s = scanFrom read 0 ((s.take skip).getLast?.or last) (s.drop skip) := by
  induction s generalizing skip last with
  | nil => simp [scanFrom]
  | cons c s ih =>
    cases skip with
    | zero => simp
    | succ n =>
      rw [scanFrom, ih, List.take_succ_cons, List.getLast?_cons, List.drop_succ_cons]
      cases (s.take n).getLast? <;> rfl

theorem scanFrom_eq_map_plain {read : Reader α} {s : Text}
    (h : ∀ last, ∀ t, t <:+ s → read last t = none) (last : Option Char) :
    scanFrom read 0 last s = s.map .plain := by
  induction s generalizing last with
  | nil => simp [scanFrom]
  | cons c s ih =>
    have hc : read last (c :: s) = none := h last _ (List.suffix_refl _)
    simp [scanFrom, hc, ih fun last t ht => h last t (ht.trans (List.suffix_cons c s))]

/-- Whether a reader uses up what it finds: its rest is what follows a text of at least one
character. -/
def Reader.Consumes (read : Reader α) : Prop :=
  ∀ last s value rest, read last s = some (value, rest) → ∃ t, t ≠ [] ∧ s = t ++ rest

/-- Every finding of a scan is what the reader finds at its place. -/
theorem read_of_mem_scanFrom {read : Reader α} (hread : read.Consumes) {skip : Nat}
    {last : Option Char} {s : Text} {value : α} {t : Text}
    (h : .found value t ∈ scanFrom read skip last s) :
    ∃ last rest, read last (t ++ rest) = some (value, rest) := by
  fun_induction scanFrom read skip last s with
  | case1 => simp at h
  | case2 skip _ c s ih => exact ih h
  | case3 last c s _ ih => exact ih (by simpa using h)
  | case4 last c s v rest hr more ih =>
    rcases List.mem_cons.1 h with he | hm
    · cases he
      obtain ⟨t, ht, hs⟩ := hread _ _ _ _ hr
      obtain ⟨d, t, rfl⟩ := List.exists_cons_of_ne_nil ht
      obtain ⟨rfl, rfl⟩ : c = d ∧ s = t ++ rest := by simpa using hs
      exact ⟨last, rest, by simpa [more] using hr⟩
    · exact ih hm

/-! ## Findings by offset -/

/-- A finding with the offset at which it starts. -/
structure Located (α : Type) where
  start : Nat
  value : α
  text : Text
  deriving DecidableEq, Repr

def Located.stop (f : Located α) : Nat := f.start + f.text.length

/-- The findings of a scan that started at an offset. -/
def locate : (offset : Nat) → List (Piece α) → List (Located α)
  | _, [] => []
  | offset, .plain _ :: pieces => locate (offset + 1) pieces
  | offset, .found value s :: pieces => ⟨offset, value, s⟩ :: locate (offset + s.length) pieces

/-! ## Literals -/

/-- Reads a literal. -/
def literal (lit : Text) : Reader Unit := fun _ s => (after? lit s).map fun rest => ((), rest)

theorem literal_consumes {lit : Text} (h : lit ≠ []) : (literal lit).Consumes := by
  intro _ s _ rest hr
  obtain ⟨r, ha, he⟩ := Option.map_eq_some_iff.1 hr
  cases he
  exact ⟨lit, h, after?_eq_some_iff.1 ha⟩

theorem text_of_mem_scan_literal {lit s t : Text} (hl : lit ≠ [])
    (h : .found () t ∈ scan (literal lit) s) : t = lit := by
  obtain ⟨_, rest, hr⟩ := read_of_mem_scanFrom (literal_consumes hl) h
  obtain ⟨r, ha, he⟩ := Option.map_eq_some_iff.1 hr
  cases he
  exact List.append_cancel_right (after?_eq_some_iff.1 ha)

/-- The text with every occurrence of `old` replaced, from the left. The empty text occurs before
every character and at the end. -/
def replaceAll (old new s : Text) : Text :=
  if old.isEmpty then s.foldr (fun c t => new ++ c :: t) new
  else (scan (literal old) s).foldr (fun
    | .plain c, t => c :: t
    | .found _ _, t => new ++ t) []

/-- A text without the literal stays as it is. -/
theorem replaceAll_of_not_occursIn {old s : Text} (h : occursIn old s = false) (new : Text) :
    replaceAll old new s = s := by
  have hi : ¬ old <:+: s := by simp [← occursIn_iff, h]
  have hne : old ≠ [] := fun he => hi (he ▸ List.nil_infix)
  have hs : scan (literal old) s = s.map .plain := by
    refine scanFrom_eq_map_plain (fun last t ht => ?_) none
    have hn : ¬ old <+: t := fun hp => hi (hp.isInfix.trans ht.isInfix)
    simp [literal, after?_eq_none_iff.2 hn]
  simp [replaceAll, hne, hs, List.foldr_map]

/-- The characters between the findings of a scan. -/
def fields : List (Piece α) → List Text
  | [] => [[]]
  | .found _ _ :: pieces => [] :: fields pieces
  | .plain c :: pieces =>
    match fields pieces with
    | [] => [[c]]
    | field :: rest => (c :: field) :: rest

/-- The parts of a text between the occurrences of a non-empty separator. -/
def splitOn (separator s : Text) : List Text := fields (scan (literal separator) s)

theorem fields_ne_nil (pieces : List (Piece α)) : fields pieces ≠ [] := by
  fun_induction fields pieces <;> simp

theorem intercalate_fields {separator : Text} {pieces : List (Piece α)}
    (h : ∀ value t, .found value t ∈ pieces → t = separator) :
    separator.intercalate (fields pieces) = pieces.flatMap Piece.text := by
  fun_induction fields pieces with
  | case1 => simp [List.intercalate]
  | case2 value t pieces ih =>
    have ih := ih fun v t hm => h v t (List.mem_cons_of_mem _ hm)
    obtain ⟨x, xs, hx⟩ := List.exists_cons_of_ne_nil (fields_ne_nil pieces)
    have ht : t = separator := h value t List.mem_cons_self
    simp [List.intercalate, hx, Piece.text, ht] at ih ⊢
    rw [ih]
  | case3 c pieces hf => exact absurd hf (fields_ne_nil pieces)
  | case4 c pieces x xs hx ih =>
    have ih := ih fun v t hm => h v t (List.mem_cons_of_mem _ hm)
    cases xs <;> simp_all [List.intercalate, Piece.text]

/-- Splitting loses nothing: the parts with the separator between them are the text. -/
theorem intercalate_splitOn {separator : Text} (h : separator ≠ []) (s : Text) :
    separator.intercalate (splitOn separator s) = s := by
  rw [splitOn, intercalate_fields fun _ _ hm => text_of_mem_scan_literal h hm, flatMap_text_scan]

end TwigLayout.Text
