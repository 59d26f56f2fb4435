import TwigLayout.Text.Basic

/-!
# Placeholder tables

A table gives out tokens and remembers the text that each of them stands for. A token is built from
the kind of the table, the number of entries and a suffix drawn from a supply. A draw whose token
occurs in the source text or in the table is passed over, so every token is fresh when it is added
(`add?_eq_some`).
-/

namespace TwigLayout.Placeholder

open Text

/-! ## Suffixes -/

/-- A supply of suffixes, by the number of the draw. A search for a fresh one looks at `spare` more
draws than it would need if no two draws were equal. -/
structure Supply where
  draw : Nat → Text
  spare : Nat

/-- The digits of a suffix: the letters, then the decimal digits. -/
def suffixDigit (n : Nat) : Char :=
  if n < 26 then Char.ofNat ('a'.toNat + n) else Char.ofNat ('0'.toNat + (n - 26))

/-- The number `n` as a suffix of eight digits to the base 36. -/
def countingSuffix (n : Nat) : Text :=
  [7, 6, 5, 4, 3, 2, 1, 0].map fun place => suffixDigit (n / Nat.pow 36 place % 36)

/-- The suffixes in the order of the numbers they stand for. -/
def Supply.counting : Supply := ⟨countingSuffix, 0⟩

/-- The given suffixes, and after them those that count. -/
def Supply.startingWith (first : List Text) : Supply :=
  ⟨fun n => first[n]?.getD (countingSuffix (n - first.length)), first.length⟩

/-! ## Tables -/

/-- A table: its label, the tokens with their texts in the order in which they were added, and the
number of draws made so far. -/
structure Table where
  label : Text
  entries : List (Text × Text)
  drawn : Nat
  deriving DecidableEq, Repr

namespace Table

def empty (label : Text) : Table := ⟨label, [], 0⟩

/-- Sets the text of a token: in its place if the list has the token, and at the end otherwise. -/
def setEntry (token region : Text) : List (Text × Text) → List (Text × Text)
  | [] => [(token, region)]
  | e :: rest => if e.1 = token then (token, region) :: rest else e :: setEntry token region rest

/-- A table with the given entries. A repeated token keeps its place and takes the last text. -/
def ofPairs (label : Text) (pairs : List (Text × Text)) : Table :=
  ⟨label, pairs.foldl (fun acc p => setEntry p.1 p.2 acc) [], 0⟩

def tokens (t : Table) : List Text := t.entries.map (·.1)

/-- The token of a label, an index and a suffix. -/
def tokenOf (label : Text) (index : Nat) (suffix : Text) : Text :=
  "__TWIG_CS_".toList ++ label ++ '_' :: Nat.toDigits 10 index ++ '_' :: suffix ++ ['_', '_']

/-- The token that a suffix gives now. -/
def candidate (t : Table) (suffix : Text) : Text := tokenOf t.label t.entries.length suffix

/-- Whether a token occurs neither in the source text nor in the table. -/
def isFresh (t : Table) (source token : Text) : Bool :=
  !occursIn token source && !t.tokens.contains token

/-- The first fresh token among so many draws from draw `n` on, with the number of the draw after
it. -/
def search (supply : Supply) (t : Table) (source : Text) :
    (tries : Nat) → (n : Nat) → Option (Text × Nat)
  | 0, _ => none
  | tries + 1, n =>
    let token := t.candidate (supply.draw n)
    if t.isFresh source token then some (token, n + 1) else search supply t source tries (n + 1)

/-- The number of draws among which a fresh token is looked for. A token can stand at no more places
than the source has characters, so one draw more than that and the entries is enough if the draws
differ. -/
def patience (supply : Supply) (t : Table) (source : Text) : Nat :=
  source.length + t.entries.length + 1 + supply.spare

/-- A fresh token, and the table with the draws it took counted. -/
def newToken? (supply : Supply) (source : Text) (t : Table) : Option (Text × Table) :=
  (search supply t source (t.patience supply source) t.drawn).map fun (token, n) =>
    (token, { t with drawn := n })

/-- A fresh token for a text, and the table with both added at the end. -/
def add? (supply : Supply) (region source : Text) (t : Table) : Option (Text × Table) :=
  (t.newToken? supply source).map fun (token, t) =>
    (token, { t with entries := t.entries ++ [(token, region)] })

theorem isFresh_of_search {supply : Supply} {t : Table} {source token : Text} {tries n m : Nat}
    (h : search supply t source tries n = some (token, m)) : t.isFresh source token = true := by
  fun_induction search supply t source tries n with
  | case1 => simp at h
  | case2 tries n token' hf =>
    obtain ⟨rfl, _⟩ : token' = token ∧ n + 1 = m := by simpa using h
    exact hf
  | case3 tries n token' _ ih => exact ih h

/-- A new token is fresh, and making it leaves the entries alone. -/
theorem newToken?_eq_some {supply : Supply} {source token : Text} {t u : Table}
    (h : t.newToken? supply source = some (token, u)) :
    t.isFresh source token = true ∧ u.entries = t.entries ∧ u.label = t.label := by
  obtain ⟨⟨token', n⟩, hs, he⟩ := Option.map_eq_some_iff.1 h
  cases he
  exact ⟨isFresh_of_search hs, rfl, rfl⟩

/-- Adding a text puts one entry with a fresh token at the end. -/
theorem add?_eq_some {supply : Supply} {region source token : Text} {t u : Table}
    (h : t.add? supply region source = some (token, u)) :
    t.isFresh source token = true ∧ u.entries = t.entries ++ [(token, region)] ∧
      u.label = t.label := by
  obtain ⟨⟨token', v⟩, hn, he⟩ := Option.map_eq_some_iff.1 h
  cases he
  obtain ⟨hf, hv, hl⟩ := newToken?_eq_some hn
  exact ⟨hf, by rw [hv], hl⟩

end Table

end TwigLayout.Placeholder
