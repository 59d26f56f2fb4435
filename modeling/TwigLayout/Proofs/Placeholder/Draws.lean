import Mathlib.Data.List.Nodup
import Mathlib.Data.List.Perm.Subperm
import TwigLayout.Placeholder.Shield
import TwigLayout.Proofs.Logged
import TwigLayout.Proofs.Placeholder.Token

/-!
# Draws

A draw is passed over if its token occurs in the source text or in the table. There are only so many
tokens of this sort: at most one for each place of the text, and one for each entry. Among one draw
more than that, no two of them equal, there is a fresh one, and the search for a token ends.

1. `exists_isFresh`: the counting argument.
2. `Table.Request.exists_answer?`: a request is answered within its window, and the table keeps its
   entries.
3. `Table.exists_run_of_differs`: by induction, so are all requests of a run.
4. `exists_assign_of_differs`: in particular, every accepted finding of a text gets a token.
-/

namespace TwigLayout.Placeholder

open Text

/-! ## Counting tokens -/

/-- So many draws in a row. -/
def Supply.draws (supply : Supply) (n count : Nat) : List Text :=
  (List.range count).map fun i => supply.draw (n + i)

/-- The texts of so many characters at the places of a text, shorter ones at its end. -/
def slices (length : Nat) (s : Text) : List Text :=
  (List.range s.length).map fun i => (s.drop i).take length

theorem length_slices (length : Nat) (s : Text) : (slices length s).length = s.length := by
  rw [slices, List.length_map, List.length_range]

theorem mem_slices {x s : Text} (hne : x ≠ []) (h : x <:+: s) : x ∈ slices x.length s := by
  obtain ⟨a, b, rfl⟩ := h
  have hpos := List.length_pos_iff.mpr hne
  refine List.mem_map.mpr ⟨a.length, List.mem_range.mpr ?_, ?_⟩
  · rw [List.length_append, List.length_append]
    omega
  · rw [List.append_assoc, List.drop_left, List.take_left]

section Candidates

variable {supply : Supply} {t : Table} {source : Text}

/-- The candidates of a table differ in their suffixes alone. -/
theorem Table.exists_candidate_eq (t : Table) :
    ∃ front, ∀ suffix, t.candidate suffix = front ++ suffix ++ ['_', '_'] := by
  unfold candidate tokenOf
  generalize "__TWIG_CS_".toList ++ t.label ++ '_' :: Nat.toDigits 10 t.entries.length = front
  exact ⟨front ++ ['_'], fun suffix => by simp⟩

theorem Table.candidate_injective (t : Table) : Function.Injective t.candidate := by
  obtain ⟨front, hfront⟩ := t.exists_candidate_eq
  intro a b h
  rw [hfront, hfront] at h
  exact List.append_cancel_left (List.append_cancel_right h)

theorem Table.candidate_ne_nil (t : Table) (suffix : Text) : t.candidate suffix ≠ [] := by
  obtain ⟨front, hfront⟩ := t.exists_candidate_eq
  rw [hfront]
  exact List.append_ne_nil_of_right_ne_nil _ (List.cons_ne_nil _ _)

theorem Table.length_candidate (t : Table) {a b : Text} (ha : IsSuffix a) (hb : IsSuffix b) :
    (t.candidate a).length = (t.candidate b).length := by
  obtain ⟨front, hfront⟩ := t.exists_candidate_eq
  simp only [hfront, List.length_append, ha.1, hb.1]

theorem Table.isFresh_eq_false_iff {token : Text} :
    t.isFresh source token = false ↔ token <:+: source ∨ token ∈ t.tokens := by
  rw [isFresh, Bool.and_eq_false_iff, Bool.not_eq_false', Bool.not_eq_false', occursIn_iff,
    List.contains_iff_mem]

/-- Of one draw more than the source has places and the table has entries, one is fresh, if no two
of them are equal. -/
theorem exists_isFresh (hs : supply.WellFormed) {n : Nat}
    (hd : (supply.draws n (source.length + t.entries.length + 1)).Nodup) :
    ∃ i < source.length + t.entries.length + 1,
      t.isFresh source (t.candidate (supply.draw (n + i))) = true := by
  by_contra hnone
  have hused : (supply.draws n (source.length + t.entries.length + 1)).map t.candidate ⊆
      slices (t.candidate (supply.draw n)).length source ++ t.tokens := by
    intro token htoken
    rw [Supply.draws, List.map_map] at htoken
    obtain ⟨i, hi, rfl⟩ := List.mem_map.mp htoken
    have hstale : t.isFresh source (t.candidate (supply.draw (n + i))) = false :=
      Bool.eq_false_iff.mpr fun hfresh => hnone ⟨i, List.mem_range.mp hi, hfresh⟩
    rcases Table.isFresh_eq_false_iff.mp hstale with hsource | htable
    · -- all candidates have one length, so a place has room for one of them
      have hmem := mem_slices (t.candidate_ne_nil _) hsource
      rw [t.length_candidate (hs (n + i)) (hs n)] at hmem
      exact List.mem_append_left _ hmem
    · exact List.mem_append_right _ htable
  have hdistinct :
      ((supply.draws n (source.length + t.entries.length + 1)).map t.candidate).Nodup :=
    hd.map t.candidate_injective
  have hle := (hdistinct.subperm hused).length_le
  rw [List.length_map, Supply.draws, List.length_map, List.length_range, List.length_append,
    length_slices, Table.tokens, List.length_map] at hle
  omega

/-- A search that comes to a fresh draw ends there at the latest. -/
theorem exists_search_eq_some {tries n i : Nat} (hi : i < tries)
    (hfresh : t.isFresh source (t.candidate (supply.draw (n + i))) = true) :
    ∃ token m, Table.search supply t source tries n = some (token, m) ∧ n < m ∧ m ≤ n + i + 1 := by
  induction tries generalizing n i with
  | zero => exact absurd hi (Nat.not_lt_zero i)
  | succ tries ih =>
    rw [Table.search]
    by_cases hfirst : t.isFresh source (t.candidate (supply.draw n)) = true
    · exact ⟨_, n + 1, if_pos hfirst, Nat.lt_succ_self n, by omega⟩
    · cases i with
      | zero => exact absurd hfresh hfirst
      | succ i =>
        have hnext : n + (i + 1) = n + 1 + i := by omega
        rw [hnext] at hfresh
        obtain ⟨token, m, hm, hlt, hle⟩ := ih (Nat.lt_of_succ_lt_succ hi) hfresh
        exact ⟨token, m, (if_neg hfirst).trans hm, by omega, by omega⟩

theorem exists_newToken?_eq_some (hs : supply.WellFormed)
    (hd : (supply.draws t.drawn (source.length + t.entries.length + 1)).Nodup) :
    ∃ token u, t.newToken? supply source = some (token, u) ∧ t.drawn < u.drawn ∧
      u.drawn ≤ t.drawn + (source.length + t.entries.length + 1) := by
  obtain ⟨i, hi, hfresh⟩ := exists_isFresh hs hd
  have htries : i < t.patience supply source := by
    rw [Table.patience]
    omega
  obtain ⟨token, m, hm, hlt, hle⟩ := exists_search_eq_some htries hfresh
  refine ⟨token, { t with drawn := m }, ?_, hlt, by dsimp only; omega⟩
  rw [Table.newToken?, hm, Option.map_some]

end Candidates

/-! ## Requests -/

namespace Table

/-- What a table is asked for: a token alone, or one with the text that it is to stand for. It must
not occur in the source text. -/
inductive Request where
  | token (source : Text)
  | entry (region source : Text)
  deriving DecidableEq, Repr

namespace Request

def source : Request → Text
  | .token source => source
  | .entry _ source => source

/-- The entries that a request puts into the table with its token. -/
def entries (token : Text) : Request → List (Text × Text)
  | .token _ => []
  | .entry region _ => [(token, region)]

/-- The token for a request, and the table behind it. -/
def answer? (supply : Supply) (t : Table) : Request → Option (Text × Table)
  | .token source => t.newToken? supply source
  | .entry region source => t.add? supply region source

/-- The number of draws that a request may need. -/
def window (t : Table) (r : Request) : Nat := r.source.length + t.entries.length + 1

end Request

/-- A request that was answered. -/
structure Step where
  before : Table
  request : Request
  token : Text
  after : Table
  deriving DecidableEq, Repr

/-- A step takes no more draws than its window has. Its token is new to the source and to the table,
and the entries for it stand behind all others. -/
structure Step.IsFresh (step : Step) : Prop where
  starts : step.before.drawn < step.after.drawn
  ends : step.after.drawn ≤ step.before.drawn + step.request.window step.before
  not_infix : ¬ step.token <:+: step.request.source
  not_mem : step.token ∉ step.before.tokens
  entries : step.after.entries = step.before.entries ++ step.request.entries step.token

theorem Step.IsFresh.nodup {step : Step} (h : step.IsFresh) (hn : step.before.tokens.Nodup) :
    step.after.tokens.Nodup := by
  have htokens : step.after.tokens =
      step.before.tokens ++ (step.request.entries step.token).map (·.1) := by
    rw [tokens, h.entries, List.map_append, tokens]
  rw [htokens]
  cases step.request with
  | token source => rwa [Request.entries, List.map_nil, List.append_nil]
  | entry region source =>
    exact hn.append (List.nodup_singleton _) (List.disjoint_singleton.mpr h.not_mem)

/-- If the draws in its window differ, a request is answered with a fresh token. -/
theorem Request.exists_answer? {supply : Supply} (hs : supply.WellFormed) {t : Table} (r : Request)
    (hd : (supply.draws t.drawn (r.window t)).Nodup) :
    ∃ token u, r.answer? supply t = some (token, u) ∧ Step.IsFresh ⟨t, r, token, u⟩ := by
  obtain ⟨token, u, hu, hstarts, hends⟩ := exists_newToken?_eq_some hs hd
  obtain ⟨hfresh, hentries, -⟩ := newToken?_eq_some hu
  have hnew : ¬ token <:+: r.source ∧ token ∉ t.tokens := by
    rw [← not_or, ← isFresh_eq_false_iff, hfresh]
    exact Bool.noConfusion
  cases r with
  | token source =>
    exact ⟨token, u, hu, hstarts, hends, hnew.1, hnew.2, hentries.trans (List.append_nil _).symm⟩
  | entry region source =>
    refine ⟨token, { u with entries := u.entries ++ [(token, region)] }, ?_, hstarts, hends, hnew.1,
      hnew.2, congrArg (· ++ [(token, region)]) hentries⟩
    exact Option.map_eq_some_iff.mpr ⟨(token, u), hu, rfl⟩

/-! ## Runs -/

/-- The steps of requests that are answered one after the other. -/
def run (supply : Supply) : Table → List Request → Option (List Step)
  | _, [] => some []
  | t, r :: requests => do
    let (token, u) ← r.answer? supply t
    return ⟨t, r, token, u⟩ :: (← run supply u requests)

/-- At each request of a run, no two of the draws in its window are equal. -/
def Differs (supply : Supply) : Table → List Request → Prop
  | _, [] => True
  | t, r :: requests => (supply.draws t.drawn (r.window t)).Nodup ∧
      ∀ token u, r.answer? supply t = some (token, u) → Differs supply u requests

/-- If the draws in the windows of a run differ, all its requests are answered, each with a fresh
token. The entries that were there before the run stay in front, in their order, and if no token had
two of them, none gets two. -/
theorem exists_run_of_differs {supply : Supply} (hs : supply.WellFormed) {t : Table}
    {requests : List Request} (hd : Differs supply t requests) :
    ∃ steps, run supply t requests = some steps ∧ steps.map Step.request = requests ∧
      ∀ step ∈ steps, step.IsFresh ∧ t.entries <+: step.after.entries ∧
        (t.tokens.Nodup → step.after.tokens.Nodup) := by
  induction requests generalizing t with
  | nil => exact ⟨[], rfl, rfl, fun _ h => absurd h List.not_mem_nil⟩
  | cons r requests ih =>
    obtain ⟨hwindow, hrest⟩ := hd
    obtain ⟨token, u, hu, hfresh⟩ := r.exists_answer? hs hwindow
    obtain ⟨steps, hsteps, hrequests, hall⟩ := ih (hrest token u hu)
    have hprefix : t.entries <+: u.entries := ⟨_, hfresh.entries.symm⟩
    refine ⟨⟨t, r, token, u⟩ :: steps, ?_, congrArg (r :: ·) hrequests,
      List.forall_mem_cons.mpr ⟨⟨hfresh, hprefix, hfresh.nodup⟩, fun step hstep => ?_⟩⟩
    · simp only [run, hu, hsteps, Option.bind_eq_bind, Option.bind_some]
      rfl
    · obtain ⟨hstep, hentries, hnodup⟩ := hall step hstep
      exact ⟨hstep, hprefix.trans hentries, fun hn => hnodup (hfresh.nodup hn)⟩

/-- The source holds the first candidate, and the second one is in the table. -/
theorem exists_run_of_differs_taken :
    let t : Table := ⟨"K".toList, [("__TWIG_CS_K_1_aaaaaaab__".toList, "old".toList)], 0⟩
    let source := "a __TWIG_CS_K_1_aaaaaaaa__ b".toList
    ∃ first second, run .counting t [.entry "new".toList source, .token source] =
        some [first, second] ∧
      first.token = "__TWIG_CS_K_1_aaaaaaac__".toList ∧ first.IsFresh ∧
      second.token = "__TWIG_CS_K_2_aaaaaaad__".toList ∧ second.IsFresh ∧
      t.entries <+: second.after.entries ∧ second.after.tokens.Nodup := by
  intro t source
  let r : Request := .entry "new".toList source
  let u : Table := ⟨"K".toList, t.entries ++ [("__TWIG_CS_K_1_aaaaaaac__".toList, "new".toList)], 3⟩
  let v : Table := { u with drawn := 4 }
  have hr : r.answer? .counting t = some ("__TWIG_CS_K_1_aaaaaaac__".toList, u) := by
    decide +kernel
  have hrun : run .counting t [r, .token source] =
      some [⟨t, r, "__TWIG_CS_K_1_aaaaaaac__".toList, u⟩,
        ⟨u, .token source, "__TWIG_CS_K_2_aaaaaaad__".toList, v⟩] := by decide +kernel
  have hdiffers : Differs .counting t [r, .token source] := by
    refine ⟨by decide +kernel, fun token w hw => ?_⟩
    rw [hr] at hw
    cases hw
    exact ⟨by decide +kernel, fun _ _ _ => trivial⟩
  obtain ⟨steps, hsteps, -, hall⟩ := exists_run_of_differs Supply.counting_wellFormed hdiffers
  rw [hrun] at hsteps
  cases hsteps
  obtain ⟨hfirst, -⟩ := hall _ List.mem_cons_self
  obtain ⟨hsecond, hentries, hnodup⟩ := hall _ (List.mem_cons_of_mem _ List.mem_cons_self)
  exact ⟨_, _, hrun, rfl, hfirst, rfl, hsecond, hentries, hnodup (by decide)⟩

end Table

/-! ## Findings -/

section Findings

variable {α : Type} {supply : Supply} {source : Text} {accepts : α → Text → Except Fault Bool}

/-- What the table is asked for when the findings of a text get their tokens. -/
def requestsOf (source : Text) (accepts : α → Text → Except Fault Bool) :
    List (Piece α) → List Table.Request
  | [] => []
  | .plain _ :: pieces => requestsOf source accepts pieces
  | .found value region :: pieces =>
    if accepts value region = .ok true then .entry region source :: requestsOf source accepts pieces
    else requestsOf source accepts pieces

/-- If the draws in the windows differ, every accepted finding gets a token. -/
theorem exists_assign_of_differs (hs : supply.WellFormed)
    (ha : ∀ value s, ∃ b, accepts value s = .ok b) {pieces : List (Piece α)} {t : Table}
    (hd : Table.Differs supply t (requestsOf source accepts pieces)) :
    ∃ parts u, assign supply source accepts pieces t = .ok (parts, u) := by
  induction pieces generalizing t with
  | nil => exact ⟨[], t, rfl⟩
  | cons piece pieces ih =>
    cases piece with
    | plain c =>
      obtain ⟨parts, u, h⟩ := ih hd
      exact ⟨.plain c :: parts, u, bind_eq_ok.mpr ⟨(parts, u), h, rfl⟩⟩
    | found value region =>
      obtain ⟨b, hb⟩ := ha value region
      rw [requestsOf, hb] at hd
      cases b with
      | false =>
        obtain ⟨parts, u, h⟩ := ih hd
        exact ⟨_, u, bind_eq_ok.mpr ⟨false, hb, bind_eq_ok.mpr ⟨(parts, u), h, rfl⟩⟩⟩
      | true =>
        obtain ⟨hwindow, hrest⟩ := hd
        obtain ⟨token, v, hv, _⟩ := Table.Request.exists_answer? hs (.entry region source) hwindow
        have hadd : t.add? supply region source = some (token, v) := hv
        obtain ⟨parts, u, h⟩ := ih (hrest token v hv)
        refine ⟨.found token region :: parts, u, bind_eq_ok.mpr ⟨true, hb, ?_⟩⟩
        simp only [if_true, hadd]
        exact bind_eq_ok.mpr ⟨(parts, u), h, rfl⟩

end Findings

end TwigLayout.Placeholder
