import TwigLayout.Text.Basic

/-!
# Globs

Patterns for file names. `*` stands for any text and `?` for any character, a slash and a line feed
included. `[...]` stands for a character of a set and `[!...]` for one outside it. There are no
escapes, and a `[` without its `]` stands for itself.
-/

namespace TwigLayout.Glob

/-! ## Sets of characters -/

/-- A set of characters: members of ranges, or all others. -/
structure CharSet where
  negated : Bool
  ranges : List (Char × Char)
  deriving DecidableEq, Repr

def CharSet.contains (set : CharSet) (c : Char) : Bool :=
  set.negated != set.ranges.any fun r => r.1 ≤ c && c ≤ r.2

/-- The stretches of a set's text between the hyphens that make ranges. The next such hyphen is
looked for two characters after one, so that a range has two ends of its own, and a hyphen at the
very end stands for itself. `held` characters from here on cannot be such a hyphen. -/
def stretches : (held : Nat) → (current : Text) → Text → List Text
  | _, current, [] => [current.reverse]
  | held + 1, current, c :: s => stretches held (c :: current) s
  | 0, current, c :: s =>
    if c = '-' then
      match s with
      | [] => [('-' :: current).reverse]
      | _ :: _ => current.reverse :: stretches 2 [] s
    else stretches 0 (c :: current) s

/-- Leaves out the ranges between stretches whose first end is above their second one. The two
stretches become one without those ends. -/
def dropEmptyRanges : List Text → List Text
  | [] => []
  | stretch :: rest =>
    match dropEmptyRanges rest with
    | [] => [stretch]
    | next :: others =>
      match stretch.getLast?, next.head? with
      | some lo, some hi =>
        if hi < lo then (stretch.dropLast ++ next.drop 1) :: others else stretch :: next :: others
      | _, _ => stretch :: next :: others

/-- The ranges of stretches: the last character of each with the first of the next. All other
characters stand for themselves, also a hyphen with nothing before it. -/
def rangesOf : List Text → List (Char × Char)
  | [] => []
  | [stretch] => stretch.map fun c => (c, c)
  | stretch :: next :: rest =>
    (stretch.map fun c => (c, c)) ++
      (match stretch.getLast?, next.head? with
        | some lo, some hi => [(lo, hi)]
        | _, _ => [('-', '-')]) ++
      rangesOf (next :: rest)

/-- The set of the text between brackets. The text after a leading `!` is the set of the others. -/
def CharSet.ofText (s : Text) : CharSet :=
  let held := if s.head? == some '!' then 2 else 1
  match dropEmptyRanges (stretches held [] s) with
  | ('!' :: first) :: rest => ⟨true, rangesOf (first :: rest)⟩
  | parts => ⟨false, rangesOf parts⟩

/-! ## Patterns -/

inductive Item where
  | star
  | one
  | char (c : Char)
  | oneOf (set : CharSet)
  deriving DecidableEq, Repr

abbrev Pattern := List Item

/-- The text of a set after its `[` and the rest after its `]`. A `]` at the start of the set, also
after a `!`, does not end it. -/
def readSet (s : Text) : Option (Text × Text) :=
  let lead : Text :=
    match s with
    | '!' :: ']' :: _ => ['!', ']']
    | '!' :: _ => ['!']
    | ']' :: _ => [']']
    | _ => []
  let body := s.drop lead.length
  match body.dropWhile (· != ']') with
  | ']' :: rest => some (lead ++ body.takeWhile (· != ']'), rest)
  | _ => none

/-- The pattern of a text of which the first `skip` characters belong to a set. Stars in a row are
one star. -/
def parseFrom : (skip : Nat) → Text → Pattern
  | _, [] => []
  | skip + 1, _ :: s => parseFrom skip s
  | 0, c :: s =>
    if c = '*' then
      match parseFrom 0 s with
      | .star :: rest => .star :: rest
      | rest => .star :: rest
    else if c = '?' then .one :: parseFrom 0 s
    else if c = '[' then
      match readSet s with
      | some (body, _) => .oneOf (.ofText body) :: parseFrom (body.length + 1) s
      | none => .char c :: parseFrom 0 s
    else .char c :: parseFrom 0 s

def parse (s : Text) : Pattern := parseFrom 0 s

/-- Whether a pattern item stands for the character. -/
def Item.fits : Item → Char → Bool
  | .star, _ => false
  | .one, _ => true
  | .char c, d => c == d
  | .oneOf set, d => set.contains d

/-! ## Matching -/

/-- Whether one of the answers from each place on is yes. -/
def anyFrom : List Bool → List Bool
  | [] => []
  | b :: bs =>
    let rest := anyFrom bs
    (b || rest.headD false) :: rest

/-- Whether a pattern stands for the ends of a text: the whole text first, the empty one last. Every
item of the pattern is looked at once for each of them. -/
def acceptedEnds : Pattern → Text → List Bool
  | [], s => s.map (fun _ => false) ++ [true]
  | .star :: p, s => anyFrom (acceptedEnds p s)
  | item :: p, s => s.zipWith (fun c b => item.fits c && b) (acceptedEnds p s).tail ++ [false]

/-- Whether a pattern stands for the text. -/
def accepts (p : Pattern) (s : Text) : Bool := (acceptedEnds p s).headD false

theorem anyFrom_ne_nil {bs : List Bool} (h : bs ≠ []) : anyFrom bs ≠ [] := by
  cases bs <;> simp_all [anyFrom]

theorem acceptedEnds_ne_nil (p : Pattern) (s : Text) : acceptedEnds p s ≠ [] := by
  fun_induction acceptedEnds p s with
  | case1 => simp
  | case2 s p ih => exact anyFrom_ne_nil ih
  | case3 => simp

/-- The answers for a text go on with those for the text without its first character. -/
theorem acceptedEnds_cons (p : Pattern) (c : Char) (s : Text) :
    acceptedEnds p (c :: s) = accepts p (c :: s) :: acceptedEnds p s := by
  have htail (p : Pattern) : (acceptedEnds p (c :: s)).tail = acceptedEnds p s := by
    induction p with
    | nil => simp [acceptedEnds]
    | cons item p ih =>
      cases hp : acceptedEnds p (c :: s) with
      | nil => exact absurd hp (acceptedEnds_ne_nil p _)
      | cons b bs =>
        rw [hp, List.tail_cons] at ih
        subst ih
        cases hs : acceptedEnds p s with
        | nil => exact absurd hs (acceptedEnds_ne_nil p s)
        | cons b' bs' => cases item <;> simp [acceptedEnds, hp, hs, anyFrom]
  have h := htail p
  cases hp : acceptedEnds p (c :: s) with
  | nil => exact absurd hp (acceptedEnds_ne_nil p _)
  | cons b bs => simp_all [accepts]

@[simp] theorem accepts_nil (s : Text) : accepts [] s = s.isEmpty := by
  cases s <;> rfl

theorem accepts_star_nil (p : Pattern) : accepts (.star :: p) [] = accepts p [] := by
  simp only [accepts, acceptedEnds]
  cases h : acceptedEnds p [] with
  | nil => rfl
  | cons b bs =>
    have hlen : (acceptedEnds p []).length = 1 := by
      clear h
      induction p with
      | nil => rfl
      | cons item p ih =>
        cases hp : acceptedEnds p [] with
        | nil => exact absurd hp (acceptedEnds_ne_nil p [])
        | cons b bs => cases item <;> simp_all [acceptedEnds, anyFrom]
    have : bs = [] := by simpa [h] using hlen
    simp [this, anyFrom]

/-- A star stands for nothing, or for a character and what it stands for after it. -/
theorem accepts_star_cons (p : Pattern) (c : Char) (s : Text) :
    accepts (.star :: p) (c :: s) = (accepts p (c :: s) || accepts (.star :: p) s) := by
  rw [accepts, acceptedEnds, acceptedEnds_cons]
  rfl

theorem accepts_item_nil {item : Item} (h : item ≠ .star) (p : Pattern) :
    accepts (item :: p) [] = false := by
  cases item <;> simp_all [accepts, acceptedEnds]

/-- Any other item stands for one character. -/
theorem accepts_item_cons {item : Item} (h : item ≠ .star) (p : Pattern) (c : Char) (s : Text) :
    accepts (item :: p) (c :: s) = (item.fits c && accepts p s) := by
  have hp : accepts p s = (acceptedEnds p s).headD false := rfl
  cases hs : acceptedEnds p s with
  | nil => exact absurd hs (acceptedEnds_ne_nil p s)
  | cons b bs =>
    rw [hs] at hp
    cases item with
    | star => exact absurd rfl h
    | one | char | oneOf => rw [accepts, acceptedEnds, acceptedEnds_cons, hs, hp] <;> simp

/-- Whether the pattern written as `pattern` stands for the text. -/
def fits (pattern s : Text) : Bool := accepts (parse pattern) s

end TwigLayout.Glob
