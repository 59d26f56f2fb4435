import TwigLayout.Proofs.Content.Hash
import TwigLayout.Proofs.Reflow.Route
import TwigLayout.Proofs.Text.Rescan

/-!
# What laying out route calls keeps

`Spelled` says how a call is written, and `Stage` how far the reading of a call has come, character
by character. A route may hold anything up to its closing quote, so a call that is read from one
place may reach over several others. Reading over a call leads to the same stage as reading over the
call laid out (`Stage.run_spelled`), so it succeeds from the same places.

1. `readCallOf_iff`: the reader finds exactly the texts that are written as a call.
2. `isSome_readCallOf_iff`: it finds a call if the stages lead to the last one.
3. `run_replacePieces`: laying out calls does not change the stage behind them.
4. `calls_of_layout`: the calls of a document that was laid out are those of the document, with
   the same functions, routes and parameters.
-/

namespace TwigLayout.Route

open Text

/-! ## How a call is written -/

/-- The text `t` is a way to write the call `c`. -/
structure Call.Spelled (c : Call) (t : Text) : Prop where
  route : ∃ q name, isQuote q = true ∧ q ∉ name ∧ c.route = q :: name ++ [q]
  body : ∀ d ∈ c.body, isBodyChar d = true
  text : ∃ gap gap' gap'' gap₃, Blank gap ∧ Blank gap' ∧ Blank gap'' ∧ Blank gap₃ ∧
    t = c.function ++ '(' :: (gap ++ (c.route ++ (gap' ++ ',' :: (gap'' ++ '{' :: (c.body ++
      '}' :: (gap₃ ++ [')']))))))

theorem not_isQuote_of_isWord {c : Char} (h : isWord c = true) : isQuote c = false := by
  rw [isQuote, Bool.or_eq_false_iff, beq_eq_false_iff_ne, beq_eq_false_iff_ne]
  constructor <;>
  · rintro rfl
    exact absurd h (by decide)

theorem readRoute_iff {s route rest : Text} :
    readRoute s = some (route, rest) ↔
      (∃ q name, isQuote q = true ∧ q ∉ name ∧ route = q :: name ++ [q]) ∧ s = route ++ rest := by
  constructor
  · intro h
    refine ⟨?_, readRoute_eq_some h⟩
    cases s with
    | nil => cases h
    | cons q s =>
      rw [readRoute] at h
      split at h
      · next hq =>
        obtain ⟨⟨name, rest'⟩, hc, he⟩ := Option.map_eq_some_iff.mp h
        cases he
        exact ⟨q, name, hq, (cut?_singleton_iff.mp hc).1, rfl⟩
      · cases h
  · rintro ⟨⟨q, name, hq, hname, rfl⟩, rfl⟩
    have hcut : cut? [q] (name ++ q :: rest) = some (name, rest) :=
      cut?_singleton_iff.mpr ⟨hname, rfl⟩
    have htext : q :: name ++ [q] ++ rest = q :: (name ++ q :: rest) := by simp
    rw [htext, readRoute, if_pos hq, hcut]
    rfl

/-- The reader of one function finds exactly the texts that are written as a call of it. -/
theorem readCallOf_iff {s function rest : Text} {c : Call} :
    readCallOf s function = some (c, rest) ↔
      c.function = function ∧ ∃ t, c.Spelled t ∧ s = t ++ rest := by
  constructor
  · intro h
    obtain ⟨s₁, s₂, s₃, s₄, s₅, rfl, hread, hcomma, hbrace, hdrop, hparen, rfl, hbody⟩ :=
      exists_steps_of_readCallOf h
    obtain ⟨gap, hgap, hs₁⟩ := exists_blank_append_trimLeft s₁
    obtain ⟨gap', hgap', hs₂⟩ := exists_blank_append_trimLeft s₂
    obtain ⟨gap'', hgap'', hs₃⟩ := exists_blank_append_trimLeft s₃
    obtain ⟨gap₃, hgap₃, hs₅⟩ := exists_blank_append_trimLeft s₅
    obtain ⟨hroute, htrim⟩ := readRoute_iff.mp hread
    have hs₄ := List.takeWhile_append_dropWhile (p := isBodyChar) (l := s₄)
    rw [hparen] at hs₅
    rw [hdrop, ← hbody, hs₅] at hs₄
    rw [hbrace, ← hs₄] at hs₃
    rw [hcomma, hs₃] at hs₂
    rw [htrim, hs₂] at hs₁
    refine ⟨rfl, _, ⟨hroute, ?_, gap, gap', gap'', gap₃, hgap, hgap', hgap'', hgap₃, rfl⟩, ?_⟩
    · rw [hbody]
      exact List.all_eq_true.mp List.all_takeWhile
    · rw [hs₁]
      simp only [List.append_assoc, List.cons_append, List.nil_append]
  · rintro ⟨rfl, _, ⟨⟨q, name, hq, hname, hroute⟩, hbody, gap, gap', gap'', gap₃, hgap, hgap',
      hgap'', hgap₃, rfl⟩, rfl⟩
    obtain ⟨function, route, body⟩ := c
    dsimp only at hroute hbody ⊢
    have htext : function ++ '(' :: (gap ++ (route ++ (gap' ++ ',' :: (gap'' ++ '{' :: (body ++
        '}' :: (gap₃ ++ [')'])))))) ++ rest = function ++ (['('] ++ (gap ++ (route ++ (gap' ++
          ',' :: (gap'' ++ '{' :: (body ++ '}' :: (gap₃ ++ ')' :: rest))))))) := by
      simp only [List.append_assoc, List.cons_append, List.nil_append]
    have hgap : ∀ u, trimLeft (gap ++ (route ++ u)) = route ++ u := by
      intro u
      rw [hroute]
      exact trimLeft_append_cons hgap (not_isBlank_of_isQuote hq) _
    have hread : ∀ u, readRoute (route ++ u) = some (route, u) := fun u =>
      readRoute_iff.mpr ⟨⟨q, name, hq, hname, hroute⟩, rfl⟩
    have hcomma : ∀ u, trimLeft (gap' ++ ',' :: u) = [','] ++ u :=
      trimLeft_append_cons hgap' (by decide)
    have hbrace : ∀ u, trimLeft (gap'' ++ '{' :: u) = ['{'] ++ u :=
      trimLeft_append_cons hgap'' (by decide)
    have htail : ∀ u, (body ++ '}' :: u).dropWhile isBodyChar = ['}'] ++ u :=
      dropWhile_append_cons hbody (by decide)
    have hbody' : ∀ u, (body ++ '}' :: u).takeWhile isBodyChar = body :=
      takeWhile_append_cons hbody (by decide)
    have hparen : trimLeft (gap₃ ++ ')' :: rest) = [')'] ++ rest :=
      trimLeft_append_cons hgap₃ (by decide) rest
    rw [htext, readCallOf]
    simp only [Option.bind_eq_bind, after?_append, Option.bind_some, hgap, hread, hcomma, hbrace,
      htail, hparen, hbody']
    rfl

/-! ## Stages -/

/-- How far the reading of a call has come. -/
inductive Stage where
  /-- Inside the name of the function, of which `left` is to come. -/
  | name (left : Text)
  /-- Before the route. -/
  | opened
  /-- Inside the route. -/
  | route (quote : Char)
  /-- Behind the route. -/
  | comma
  /-- Behind the comma. -/
  | brace
  /-- Inside the hash. -/
  | body
  /-- Behind the hash. -/
  | paren
  | done
  | dead
  deriving DecidableEq

namespace Stage

def step : Stage → Char → Stage
  | .name [], c => if c = '(' then .opened else .dead
  | .name (d :: left), c => if c = d then .name left else .dead
  | .opened, c => if isBlank c then .opened else if isQuote c then .route c else .dead
  | .route q, c => if c = q then .comma else .route q
  | .comma, c => if isBlank c then .comma else if c = ',' then .brace else .dead
  | .brace, c => if isBlank c then .brace else if c = '{' then .body else .dead
  | .body, c => if isBodyChar c then .body else if c = '}' then .paren else .dead
  | .paren, c => if isBlank c then .paren else if c = ')' then .done else .dead
  | .done, _ => .done
  | .dead, _ => .dead

/-- The stage behind a text. -/
def run (st : Stage) (s : Text) : Stage := s.foldl step st

variable {st : Stage}

theorem run_append (st : Stage) (s t : Text) : st.run (s ++ t) = (st.run s).run t :=
  List.foldl_append

theorem run_cons (st : Stage) (c : Char) (s : Text) : st.run (c :: s) = (st.step c).run s := rfl

theorem run_of_forall {s : Text} (h : ∀ c ∈ s, st.step c = st) : st.run s = st := by
  induction s with
  | nil => rfl
  | cons c s ih =>
    rw [run_cons, h c List.mem_cons_self]
    exact ih fun d hd => h d (List.mem_cons_of_mem _ hd)

theorem run_done (s : Text) : run .done s = .done := run_of_forall fun _ _ => rfl

theorem run_dead (s : Text) : run .dead s = .dead := run_of_forall fun _ _ => rfl

/-! ### Stages and the reader -/

/-- A stage that waits for one character behind white space. -/
theorem run_gap_iff {next : Stage} {d : Char} (hne : st ≠ .done) (hd : isBlank d = false)
    (hstep : ∀ c, st.step c = if isBlank c then st else if c = d then next else .dead) {s : Text} :
    st.run s = .done ↔ ∃ rest, after? [d] (trimLeft s) = some rest ∧ next.run rest = .done := by
  induction s with
  | nil => exact ⟨fun h => absurd h hne, fun ⟨_, h, _⟩ => nomatch h⟩
  | cons c s ih =>
    rw [run_cons, hstep]
    by_cases hb : isBlank c = true
    · have htrim : trimLeft (c :: s) = trimLeft s := List.dropWhile_cons_of_pos hb
      rw [if_pos hb, htrim]
      exact ih
    · rw [if_neg hb, trimLeft_cons (Bool.not_eq_true _ |>.mp hb)]
      by_cases hc : c = d
      · subst hc
        rw [if_pos rfl, show c :: s = [c] ++ s from rfl, after?_append]
        exact ⟨fun h => ⟨s, rfl, h⟩, fun ⟨_, he, h⟩ => Option.some.inj he ▸ h⟩
      · have hnone : after? [d] (c :: s) = none := by
          rw [after?_cons, if_neg (Ne.symm hc)]
        rw [if_neg hc, run_dead, hnone]
        exact ⟨(nomatch ·), fun ⟨_, h, _⟩ => nomatch h⟩

theorem run_comma_iff {s : Text} : run .comma s = .done ↔
    ∃ rest, after? [','] (trimLeft s) = some rest ∧ run .brace rest = .done :=
  run_gap_iff (by decide) (by decide) fun _ => rfl

theorem run_brace_iff {s : Text} : run .brace s = .done ↔
    ∃ rest, after? ['{'] (trimLeft s) = some rest ∧ run .body rest = .done :=
  run_gap_iff (by decide) (by decide) fun _ => rfl

theorem run_paren_iff {s : Text} : run .paren s = .done ↔
    ∃ rest, after? [')'] (trimLeft s) = some rest ∧ run .done rest = .done :=
  run_gap_iff (by decide) (by decide) fun _ => rfl

theorem run_body_iff {s : Text} : run .body s = .done ↔
    ∃ rest, after? ['}'] (s.dropWhile isBodyChar) = some rest ∧ run .paren rest = .done := by
  induction s with
  | nil => exact ⟨(nomatch ·), fun ⟨_, h, _⟩ => nomatch h⟩
  | cons c s ih =>
    rw [run_cons, step]
    by_cases hb : isBodyChar c = true
    · rw [if_pos hb, List.dropWhile_cons_of_pos hb]
      exact ih
    · rw [if_neg hb, List.dropWhile_cons_of_neg hb]
      by_cases hc : c = '}'
      · subst hc
        rw [if_pos rfl, show '}' :: s = ['}'] ++ s from rfl, after?_append]
        exact ⟨fun h => ⟨s, rfl, h⟩, fun ⟨_, he, h⟩ => Option.some.inj he ▸ h⟩
      · have hnone : after? ['}'] (c :: s) = none := by
          rw [after?_cons, if_neg (Ne.symm hc)]
        rw [if_neg hc, run_dead, hnone]
        exact ⟨(nomatch ·), fun ⟨_, h, _⟩ => nomatch h⟩

theorem run_route_iff {q : Char} {s : Text} : run (.route q) s = .done ↔
    ∃ name rest, cut? [q] s = some (name, rest) ∧ run .comma rest = .done := by
  simp only [cut?_singleton_iff]
  induction s with
  | nil =>
    refine ⟨(nomatch ·), ?_⟩
    rintro ⟨name, rest, ⟨_, h⟩, _⟩
    cases name <;> cases h
  | cons c s ih =>
    rw [run_cons, step]
    split
    · next hc =>
      subst hc
      constructor
      · exact fun h => ⟨[], s, ⟨List.not_mem_nil, rfl⟩, h⟩
      · rintro ⟨name, rest, ⟨hn, he⟩, h⟩
        cases name with
        | nil =>
          cases he
          exact h
        | cons d name =>
          cases he
          exact absurd List.mem_cons_self hn
    · next hc =>
      rw [ih]
      constructor
      · rintro ⟨name, rest, ⟨hn, rfl⟩, h⟩
        exact ⟨c :: name, rest, ⟨by simp [Ne.symm hc, hn], rfl⟩, h⟩
      · rintro ⟨name, rest, ⟨hn, he⟩, h⟩
        cases name with
        | nil =>
          cases he
          exact absurd rfl hc
        | cons d name =>
          cases he
          exact ⟨name, rest, ⟨fun hq => hn (List.mem_cons_of_mem _ hq), rfl⟩, h⟩

theorem run_opened_iff {s : Text} : run .opened s = .done ↔
    ∃ route rest, readRoute (trimLeft s) = some (route, rest) ∧ run .comma rest = .done := by
  induction s with
  | nil =>
    constructor
    · intro h
      cases h
    · rintro ⟨_, _, h, _⟩
      cases h
  | cons c s ih =>
    rw [run_cons, step]
    split
    · next hb =>
      have htrim : trimLeft (c :: s) = trimLeft s := List.dropWhile_cons_of_pos hb
      rw [htrim]
      exact ih
    · next hb =>
      rw [trimLeft_cons (Bool.not_eq_true _ |>.mp hb), readRoute]
      split
      · rw [run_route_iff]
        constructor
        · rintro ⟨name, rest, hc, h⟩
          exact ⟨c :: name ++ [c], rest, by rw [hc]; rfl, h⟩
        · rintro ⟨route, rest, he, h⟩
          obtain ⟨⟨name, rest'⟩, hc, he⟩ := Option.map_eq_some_iff.mp he
          cases he
          exact ⟨name, rest', hc, h⟩
      · rw [run_dead]
        constructor
        · intro h
          cases h
        · rintro ⟨_, _, h, _⟩
          cases h

theorem run_name_iff {function s : Text} : run (.name function) s = .done ↔
    ∃ rest, after? (function ++ ['(']) s = some rest ∧ run .opened rest = .done := by
  induction function generalizing s with
  | nil =>
    cases s with
    | nil => exact ⟨(nomatch ·), fun ⟨_, h, _⟩ => nomatch h⟩
    | cons c s =>
      rw [run_cons, step, List.nil_append, after?_cons]
      split
      · next hc =>
        subst hc
        rw [if_pos rfl]
        exact ⟨fun h => ⟨s, rfl, h⟩, fun ⟨_, he, h⟩ => Option.some.inj he ▸ h⟩
      · next hc =>
        rw [if_neg (Ne.symm hc), run_dead]
        exact ⟨(nomatch ·), fun ⟨_, h, _⟩ => nomatch h⟩
  | cons d function ih =>
    cases s with
    | nil => exact ⟨(nomatch ·), fun ⟨_, h, _⟩ => nomatch h⟩
    | cons c s =>
      rw [run_cons, step, List.cons_append, after?_cons]
      split
      · next hc =>
        rw [if_pos hc.symm]
        exact ih
      · next hc =>
        rw [if_neg (Ne.symm hc), run_dead]
        exact ⟨(nomatch ·), fun ⟨_, h, _⟩ => nomatch h⟩

end Stage

/-- The reader of a function finds a call if its stages lead to the last one. -/
theorem isSome_readCallOf_iff {s function : Text} :
    (∃ c rest, readCallOf s function = some (c, rest)) ↔
      Stage.run (.name function) s = .done := by
  constructor
  · rintro ⟨c, rest, h⟩
    obtain ⟨s₁, s₂, s₃, s₄, s₅, rfl, hroute, hcomma, hbrace, hdrop, hparen, _⟩ :=
      exists_steps_of_readCallOf h
    have hname : after? (function ++ ['(']) (function ++ '(' :: s₁) = some s₁ :=
      after?_eq_some_iff.mpr (List.append_cons function '(' s₁)
    exact Stage.run_name_iff.mpr ⟨s₁, hname, Stage.run_opened_iff.mpr ⟨c.route, s₂, hroute,
      Stage.run_comma_iff.mpr ⟨s₃, after?_eq_some_iff.mpr hcomma,
        Stage.run_brace_iff.mpr ⟨s₄, after?_eq_some_iff.mpr hbrace,
          Stage.run_body_iff.mpr ⟨s₅, after?_eq_some_iff.mpr hdrop,
            Stage.run_paren_iff.mpr ⟨rest, after?_eq_some_iff.mpr hparen,
              Stage.run_done rest⟩⟩⟩⟩⟩⟩
  · intro h
    obtain ⟨s₂, hname, h⟩ := Stage.run_name_iff.mp h
    obtain ⟨route, s₃, h₃, h⟩ := Stage.run_opened_iff.mp h
    obtain ⟨s₄, h₄, h⟩ := Stage.run_comma_iff.mp h
    obtain ⟨s₅, h₅, h⟩ := Stage.run_brace_iff.mp h
    obtain ⟨s₆, h₆, h⟩ := Stage.run_body_iff.mp h
    obtain ⟨s₇, h₇, _⟩ := Stage.run_paren_iff.mp h
    rw [after?_eq_some_iff, List.append_assoc] at hname
    refine ⟨⟨function, route, s₅.takeWhile isBodyChar⟩, s₇, ?_⟩
    rw [hname, readCallOf]
    simp only [Option.bind_eq_bind, after?_append, Option.bind_some, h₃, h₄, h₅, h₆, h₇]
    rfl

namespace Stage

variable {st : Stage}

/-! ### Reading over a call -/

/-- The stages behind the closing quote of a route. -/
def IsLate : Stage → Prop
  | .name _ | .opened | .route _ => False
  | _ => True

theorem IsLate.step (h : st.IsLate) (c : Char) : (st.step c).IsLate := by
  cases st <;> simp only [Stage.step] <;> (try split) <;> (try split) <;> trivial

theorem IsLate.run (h : st.IsLate) (s : Text) : (st.run s).IsLate := by
  induction s generalizing st with
  | nil => exact h
  | cons c s ih => exact ih (h.step c)

/-- What becomes of a stage at something that only a finished reading can pass. -/
def settle : Stage → Stage
  | .done => .done
  | _ => .dead

theorem run_settle (st : Stage) (s : Text) : st.settle.run s = st.settle := by
  cases st
  case done => exact run_done s
  all_goals exact run_dead s

/-- The characters that a stage behind the route may wait for. -/
def isAwaited (c : Char) : Bool := isBlank c || c == ',' || c == '{' || c == ')'

theorem IsLate.step_eq_settle (h : st.IsLate) (hb : st ≠ .body) {c : Char}
    (hc : isAwaited c = false) : st.step c = st.settle := by
  simp only [isAwaited, Bool.or_eq_false_iff, beq_eq_false_iff_ne] at hc
  obtain ⟨⟨⟨hblank, hcomma⟩, hbrace⟩, hparen⟩ := hc
  cases st with
  | name left => exact h.elim
  | opened => exact h.elim
  | route q => exact h.elim
  | body => exact absurd rfl hb
  | comma => simp [Stage.step, settle, hblank, hcomma]
  | brace => simp [Stage.step, settle, hblank, hbrace]
  | paren => simp [Stage.step, settle, hblank, hparen]
  | done => rfl
  | dead => rfl

theorem isAwaited_of_isQuote {c : Char} (h : isQuote c = true) : isAwaited c = false := by
  rw [isQuote, Bool.or_eq_true, beq_iff_eq, beq_iff_eq] at h
  rcases h with rfl | rfl <;> decide

theorem isAwaited_of_isWord {c : Char} (h : isWord c = true) : isAwaited c = false := by
  refine Bool.eq_false_iff.mpr fun ha => ?_
  simp only [isAwaited, Bool.or_eq_true, beq_iff_eq] at ha
  rcases ha with ((hb | rfl) | rfl) | rfl
  · rw [not_isWord_of_isBlank hb] at h
    cases h
  all_goals exact absurd h (by decide)

/-- The characters between a route and the brace behind it. -/
def IsBetween (s : Text) : Prop := ∀ c ∈ s, isBlank c = true ∨ c = ','

theorem isBodyChar_of_isBlank {c : Char} (h : isBlank c = true) : isBodyChar c = true :=
  bne_braces_of_class (by decide) (by decide) h

theorem isBodyChar_of_isQuote {c : Char} (h : isQuote c = true) : isBodyChar c = true :=
  bne_braces_of_class (by decide) (by decide) h

theorem isBodyChar_of_isWord {c : Char} (h : isWord c = true) : isBodyChar c = true :=
  bne_braces_of_class (by decide) (by decide) h

theorem run_body_of_forall {s : Text} (h : ∀ c ∈ s, isBodyChar c = true) :
    run .body s = .body := run_of_forall fun c hc => if_pos (h c hc)

/-- Only a finished reading passes a quote and a brace that opens behind it. -/
theorem IsLate.run_quote (h : st.IsLate) {q : Char} (hq : isQuote q = true) {m : Text}
    (hm : IsBetween m) (z : Text) : st.run (q :: (m ++ '{' :: z)) = st.settle := by
  by_cases hb : st = .body
  · subst hb
    have hbody : ∀ c ∈ q :: m, isBodyChar c = true := by
      refine List.forall_mem_cons.mpr ⟨isBodyChar_of_isQuote hq, fun c hc => ?_⟩
      rcases hm c hc with hb | rfl
      · exact isBodyChar_of_isBlank hb
      · decide
    rw [← List.cons_append, run_append, run_body_of_forall hbody]
    exact run_dead z
  · rw [run_cons, h.step_eq_settle hb (isAwaited_of_isQuote hq), run_settle]

theorem isLate_run_route {q : Char} {s : Text} (h : q ∈ s) : (run (.route q) s).IsLate := by
  induction s with
  | nil => exact absurd h List.not_mem_nil
  | cons c s ih =>
    rw [run_cons, step]
    split
    · have hlate : IsLate .comma := trivial
      exact hlate.run s
    · next hc =>
      rcases List.mem_cons.mp h with rfl | h
      · exact absurd rfl hc
      · exact ih h

/-- A reading that waits for a brace to open does not pass one that closes. -/
theorem run_of_waiting (h : st = .comma ∨ st = .brace ∨ st = .dead) {b : Text}
    (hb : ∀ c ∈ b, isBodyChar c = true) (z : Text) : st.run (b ++ '}' :: z) = .dead := by
  induction b generalizing st with
  | nil =>
    have hstep : st.step '}' = .dead := by rcases h with rfl | rfl | rfl <;> rfl
    rw [List.nil_append, run_cons, hstep, run_dead]
  | cons c b ih =>
    refine ih ?_ fun d hd => hb d (List.mem_cons_of_mem _ hd)
    have hc : c ≠ '{' := by
      rintro rfl
      exact absurd (hb '{' List.mem_cons_self) (by decide)
    rcases h with rfl | rfl | rfl
    · rw [step]
      split
      · exact .inl rfl
      · split
        · exact .inr (.inl rfl)
        · exact .inr (.inr rfl)
    · rw [step, if_neg hc]
      split
      · exact .inr (.inl rfl)
      · exact .inr (.inr rfl)
    · exact .inr (.inr rfl)

theorem run_route_body {e : Char} {b : Text} (he : e ∈ b) (hb : ∀ c ∈ b, isBodyChar c = true)
    (z : Text) : run (.route e) (b ++ '}' :: z) = .dead := by
  induction b with
  | nil => exact absurd he List.not_mem_nil
  | cons c b ih =>
    have hb' : ∀ d ∈ b, isBodyChar d = true := fun d hd => hb d (List.mem_cons_of_mem _ hd)
    rw [List.cons_append, run_cons, step]
    split
    · exact run_of_waiting (.inl rfl) hb' z
    · next hc =>
      rcases List.mem_cons.mp he with rfl | he
      · exact absurd rfl hc
      · exact ih he hb'

/-- The stage behind a call with the route `name` in quotes `q` and the hash body `b`. -/
def across (q : Char) (name b : Text) : Stage → Stage
  | .done => .done
  | .body => (run .body name).settle
  | .route e =>
    if e = q then (run .comma name).settle
    else if e ∈ name then (run (.route e) name).settle
    else if e ∈ b then .dead
    else .route e
  | _ => .dead

/-- More quotes in the hash at most stop a reading. -/
theorem across_of_subset {q : Char} {name b b' : Text}
    (h : ∀ e, isQuote e = true → e ∈ b → e ∈ b') (hr : ∀ e, st = .route e → isQuote e = true) :
    st.across q name b' = st.across q name b ∨ st.across q name b' = .dead := by
  cases st with
  | route e =>
    rw [across, across]
    split
    · exact .inl rfl
    split
    · exact .inl rfl
    by_cases he : e ∈ b'
    · rw [if_pos he]
      exact .inr rfl
    · rw [if_neg he, if_neg fun hb => he (h e (hr e rfl) hb)]
      exact .inl rfl
  | _ => exact .inl rfl

/-- A reading inside a route passes what has none of its quotes. -/
theorem run_route_of_not_mem {e : Char} {u : Text} (h : e ∉ u) : run (.route e) u = .route e := by
  refine run_of_forall fun d hd => if_neg ?_
  rintro rfl
  exact h hd

theorem not_mem_of_isQuote {e : Char} (he : isQuote e = true) {u : Text}
    (hu : ∀ d ∈ u, isQuote d = false) : e ∉ u := by
  intro h
  rw [hu e h] at he
  cases he

/-- Reading over a call from inside a route, behind the opening parenthesis of the call. -/
theorem run_route_across {e q : Char} (he : isQuote e = true) (hq : isQuote q = true)
    {name m b z : Text} (hm : IsBetween m) (hb : ∀ c ∈ b, isBodyChar c = true)
    (hz : ∀ d ∈ z, isQuote d = false) :
    run (.route e) (q :: (name ++ q :: (m ++ '{' :: (b ++ '}' :: z)))) =
      across q name b (.route e) := by
  rw [run_cons, step, across]
  by_cases heq : e = q
  · have hlate : IsLate .comma := trivial
    rw [if_pos heq.symm, if_pos heq, run_append, (hlate.run name).run_quote hq hm]
  rw [if_neg (Ne.symm heq), if_neg heq, run_append]
  by_cases hname : e ∈ name
  · rw [if_pos hname, (isLate_run_route hname).run_quote hq hm]
  have hbetween : e ∉ q :: (m ++ ['{']) := by
    refine List.not_mem_cons_of_ne_of_not_mem heq (not_mem_of_isQuote he ?_)
    refine List.forall_mem_append.mpr ⟨fun d hd => ?_, List.forall_mem_singleton.mpr (by decide)⟩
    rcases hm d hd with hd | rfl
    · exact not_isQuote_of_isBlank hd
    · decide
  have htext : q :: (m ++ '{' :: (b ++ '}' :: z)) = q :: (m ++ ['{']) ++ (b ++ '}' :: z) := by simp
  rw [if_neg hname, run_route_of_not_mem hname, htext, run_append, run_route_of_not_mem hbetween]
  by_cases hbody : e ∈ b
  · rw [if_pos hbody, run_route_body hbody hb]
  · rw [if_neg hbody, run_route_of_not_mem]
    exact List.mem_append.not.mpr (not_or.mpr ⟨hbody, not_mem_of_isQuote he
      (List.forall_mem_cons.mpr ⟨by decide, hz⟩)⟩)

/-- A call starts with a character that no stage waits for: the first one of its function, or the
parenthesis if that has no characters. -/
theorem exists_cons_of_isWord {function : Text} (h : ∀ d ∈ function, isWord d = true) (u : Text) :
    ∃ d v, function ++ '(' :: u = d :: v ∧ isAwaited d = false ∧ isQuote d = false := by
  cases function with
  | nil => exact ⟨'(', u, rfl, by decide, by decide⟩
  | cons d function =>
    have hd := h d List.mem_cons_self
    exact ⟨d, function ++ '(' :: u, rfl, isAwaited_of_isWord hd, not_isQuote_of_isWord hd⟩

section Opening

variable {function gap : Text} (hword : ∀ d ∈ function, isWord d = true)

include hword

/-- Behind the route nothing of a function and its parenthesis is looked for. -/
theorem IsLate.run_function (h : st.IsLate) (hb : st ≠ .body) (u : Text) :
    st.run (function ++ '(' :: u) = st.settle := by
  obtain ⟨d, v, he, hd, _⟩ := exists_cons_of_isWord hword u
  rw [he, run_cons, h.step_eq_settle hb hd, run_settle]

theorem run_opened_function (u : Text) : run .opened (function ++ '(' :: u) = .dead := by
  obtain ⟨d, v, he, hd, hquote⟩ := exists_cons_of_isWord hword u
  have hblank : isBlank d = false := by
    simp only [isAwaited, Bool.or_eq_false_iff] at hd
    exact hd.1.1.1
  have hdead : Stage.opened.step d = .dead := by simp [step, hblank, hquote]
  rw [he, run_cons, hdead, run_dead]

theorem isQuote_eq_false_of_mem_opening (hgap : Blank gap) :
    ∀ d ∈ function ++ '(' :: gap, isQuote d = false := by
  refine List.forall_mem_append.mpr ⟨fun d hd => not_isQuote_of_isWord (hword d hd), ?_⟩
  exact List.forall_mem_cons.mpr ⟨by decide, fun d hd => not_isQuote_of_isBlank (hgap d hd)⟩

theorem isBodyChar_of_mem_opening (hgap : Blank gap) :
    ∀ d ∈ function ++ '(' :: gap, isBodyChar d = true := by
  refine List.forall_mem_append.mpr ⟨fun d hd => isBodyChar_of_isWord (hword d hd), ?_⟩
  exact List.forall_mem_cons.mpr ⟨by decide, fun d hd => isBodyChar_of_isBlank (hgap d hd)⟩

end Opening

/-- Reading over a call. A reading that is inside a route passes it if the call has no such quote,
and another one passes it only if it is finished within the route of the call. -/
theorem run_spelled {c : Call} {t : Text} (h : c.Spelled t)
    (hword : ∀ d ∈ c.function, isWord d = true) {q : Char} {name : Text} (hq : isQuote q = true)
    (hroute : c.route = q :: name ++ [q]) (hn : ∀ left, st ≠ .name left)
    (hr : ∀ e, st = .route e → isQuote e = true) : st.run t = st.across q name c.body := by
  obtain ⟨gap, gap', gap'', gap₃, hgap, hgap', hgap'', hgap₃, ht⟩ := h.text
  have hbetween : IsBetween (gap' ++ ',' :: gap'') :=
    List.forall_mem_append.mpr ⟨fun d hd => .inl (hgap' d hd),
      List.forall_mem_cons.mpr ⟨.inr rfl, fun d hd => .inl (hgap'' d hd)⟩⟩
  have htext : t = (c.function ++ '(' :: gap) ++ q :: (name ++ q ::
      ((gap' ++ ',' :: gap'') ++ '{' :: (c.body ++ '}' :: (gap₃ ++ [')'])))) := by
    rw [ht, hroute]
    simp only [List.append_assoc, List.cons_append, List.nil_append]
  have hlate : st.IsLate → st ≠ .body → st.run t = st.settle := by
    intro hl hb
    rw [ht, hl.run_function hword hb]
  cases st with
  | name left => exact absurd rfl (hn left)
  | opened =>
    rw [ht, run_opened_function hword]
    rfl
  | route e =>
    have he : isQuote e = true := hr e rfl
    have hend : ∀ d ∈ gap₃ ++ [')'], isQuote d = false := by
      refine List.forall_mem_append.mpr ⟨fun d hd => not_isQuote_of_isBlank (hgap₃ d hd), ?_⟩
      exact List.forall_mem_singleton.mpr (by decide)
    rw [htext, run_append, run_route_of_not_mem
      (not_mem_of_isQuote he (isQuote_eq_false_of_mem_opening hword hgap))]
    exact run_route_across he hq hbetween h.body hend
  | body =>
    have hbody : ∀ d ∈ c.function ++ '(' :: gap ++ [q], isBodyChar d = true :=
      List.forall_mem_append.mpr ⟨isBodyChar_of_mem_opening hword hgap,
        List.forall_mem_singleton.mpr (isBodyChar_of_isQuote hq)⟩
    have hlate : IsLate .body := trivial
    rw [htext, List.append_cons, run_append, run_body_of_forall hbody, run_append,
      (hlate.run name).run_quote hq hbetween]
    rfl
  | comma | brace | paren | done | dead => exact hlate trivial (by decide)

/-- What is known of a stage behind the character `last`. -/
structure Fits (st : Stage) (last : Option Char) : Prop where
  name : ∀ left, st = .name left → (∀ c ∈ left, isWord c = true) ∧ mayPrecede last = false
  route : ∀ e, st = .route e → isQuote e = true

theorem IsLate.fits (h : st.IsLate) (last : Option Char) : st.Fits last :=
  ⟨fun _ he => (he ▸ h : IsLate (.name _)).elim, fun _ he => (he ▸ h : IsLate (.route _)).elim⟩

theorem fits_opened (last : Option Char) : Fits .opened last := ⟨nofun, nofun⟩

theorem fits_route {e : Char} (he : isQuote e = true) (last : Option Char) :
    Fits (.route e) last := ⟨nofun, fun _ h => Stage.route.inj h ▸ he⟩

theorem fits_step_name {left : Text} (h : ∀ c ∈ left, isWord c = true) (c : Char) :
    ((Stage.name left).step c).Fits (some c) := by
  cases left with
  | nil =>
    rw [step]
    split
    · exact fits_opened _
    · exact IsLate.fits (by trivial) _
  | cons d left =>
    rw [step]
    split
    · next hc =>
      refine ⟨fun left' he => ?_, nofun⟩
      obtain rfl := Stage.name.inj he
      refine ⟨fun e he => h e (List.mem_cons_of_mem _ he), ?_⟩
      have hw : isWord c = true := hc ▸ h d List.mem_cons_self
      simp [mayPrecede, hw]
    · exact IsLate.fits (by trivial) _

theorem Fits.step {last : Option Char} (h : st.Fits last) (c : Char) :
    (st.step c).Fits (some c) := by
  cases st with
  | name left => exact fits_step_name (h.name left rfl).1 c
  | opened =>
    rw [Stage.step]
    split
    · exact fits_opened _
    · split
      · next hq => exact fits_route hq _
      · exact IsLate.fits (by trivial) _
  | route e =>
    rw [Stage.step]
    split
    · exact IsLate.fits (by trivial) _
    · exact fits_route (h.route e rfl) _
  | comma | brace | body | paren | done | dead =>
    exact IsLate.fits (IsLate.step (by trivial) c) _

theorem isLate_settle (st : Stage) : st.settle.IsLate := by cases st <;> trivial

theorem Fits.across {last : Option Char} (h : st.Fits last) (q : Char) (name b : Text)
    (last' : Option Char) : (st.across q name b).Fits last' := by
  cases st with
  | route e =>
    rw [Stage.across]
    split
    · exact (isLate_settle _).fits _
    split
    · exact (isLate_settle _).fits _
    split
    · exact IsLate.fits (by trivial) _
    · exact fits_route (h.route e rfl) _
  | body => exact (isLate_settle _).fits _
  | name | opened | comma | brace | paren | done | dead => exact IsLate.fits (by trivial) _

end Stage

/-! ## Calls beside one another -/

section Functions

variable {functions : List Text}

/-- What a list of functions must be like: its names are not empty and have no other characters
than those of names. -/
def AreNames (functions : List Text) : Prop :=
  ∀ f ∈ functions, f ≠ [] ∧ ∀ c ∈ f, isWord c = true

/-- The names of a list of functions have no other characters than those of names. -/
def AreWords (functions : List Text) : Prop := ∀ f ∈ functions, ∀ c ∈ f, isWord c = true

theorem AreNames.areWords (h : AreNames functions) : AreWords functions := fun f hf => (h f hf).2

theorem areNames_path : AreNames ["path".toList] :=
  List.forall_mem_singleton.mpr ⟨by decide, List.all_eq_true.mp (by decide)⟩

/-- A text is a call of one function only. -/
theorem Call.Spelled.function_eq {c c' : Call} {t t' rest rest' : Text} (h : c.Spelled t)
    (h' : c'.Spelled t') (hw : ∀ d ∈ c.function, isWord d = true)
    (hw' : ∀ d ∈ c'.function, isWord d = true) (he : t ++ rest = t' ++ rest') :
    c.function = c'.function := by
  obtain ⟨_, _, _, _, _, _, _, _, rfl⟩ := h.text
  obtain ⟨_, _, _, _, _, _, _, _, rfl⟩ := h'.text
  rw [List.append_assoc, List.append_assoc] at he
  exact (append_cons_inj_of_forall hw (by decide) hw' (by decide) he).1

/-- The reader finds exactly the texts that are written as a call of one of the functions. -/
theorem Call.read_iff (hf : AreWords functions) {last : Option Char} {s rest : Text} {c : Call} :
    read functions last s = some (c, rest) ↔
      mayPrecede last = true ∧ c.function ∈ functions ∧ ∃ t, c.Spelled t ∧ s = t ++ rest := by
  constructor
  · intro h
    rw [read] at h
    split at h
    · next hl =>
      obtain ⟨function, hm, hc⟩ := List.exists_of_findSome?_eq_some h
      obtain ⟨rfl, ht⟩ := readCallOf_iff.mp hc
      exact ⟨hl, hm, ht⟩
    · cases h
  · rintro ⟨hl, hm, t, ht, rfl⟩
    rw [read, if_pos hl]
    have hread : readCallOf (t ++ rest) c.function = some (c, rest) :=
      readCallOf_iff.mpr ⟨rfl, t, ht, rfl⟩
    cases hfind : functions.findSome? (readCallOf (t ++ rest)) with
    | none => rw [List.findSome?_eq_none_iff.mp hfind _ hm] at hread; cases hread
    | some found =>
      -- whichever function is tried first, it is that of the call
      obtain ⟨function, hm', hc'⟩ := List.exists_of_findSome?_eq_some hfind
      obtain ⟨c', rest'⟩ := found
      obtain ⟨rfl, t', ht', he⟩ := readCallOf_iff.mp hc'
      rw [← ht.function_eq ht' (hf _ hm) (hf _ hm') he, hread] at hc'
      exact hc'.symm

/-- The calls of a document are written as calls of the functions. -/
theorem spelled_of_mem_locate (hf : AreWords functions) {i : Nat} {s : Text} {f : Located Call}
    (h : f ∈ locate i (scan (Call.read functions) s)) :
    f.value.function ∈ functions ∧ f.value.Spelled f.text := by
  obtain ⟨last, rest, hr⟩ :=
    read_of_mem_scanFrom (Call.read_consumes functions) (mem_of_mem_locate h)
  obtain ⟨_, hm, t, ht, he⟩ := (Call.read_iff hf).mp hr
  rw [List.append_cancel_right he]
  exact ⟨hm, ht⟩

variable {f : Located Call → Option Text}

/-- Another way to write a call, with the same function and route, and with no quote of its hash
left out. -/
structure Call.Redone (c : Call) (c' : Call) : Prop where
  function : c'.function = c.function
  route : c'.route = c.route
  quotes : ∀ e, isQuote e = true → e ∈ c.body → e ∈ c'.body

/-- The stage behind calls that were written in another way. -/
theorem run_replacePieces (hf : AreWords functions)
    (hfound : ∀ {i last c old rest}, Call.read functions last (old ++ rest) = some (c, rest) →
      ∃ c', c.Redone c' ∧ c'.Spelled ((f ⟨i, c, old⟩).getD old))
    {last : Option Char} {s : Text} {pieces : List (Piece Call)}
    (hs : Scans (Call.read functions) last s pieces) {st : Stage} (hst : st.Fits last) (i : Nat) :
    st.run (replacePieces f i pieces) = st.run s ∨ st.run (replacePieces f i pieces) = .dead := by
  induction hs generalizing st i with
  | nil => exact .inl rfl
  | plain _ _ ih => exact ih (hst.step _) (i + 1)
  | @found last c old rest pieces _ hr _ ih =>
    obtain ⟨hl, hm, t, ht, he⟩ := (Call.read_iff hf).mp hr
    obtain rfl := List.append_cancel_right he
    obtain ⟨c', hc', hnew⟩ := hfound (i := i) hr
    obtain ⟨q, name, hq, _, hroute⟩ := ht.route
    have hn : ∀ left, st ≠ .name left := by
      intro left h
      rw [(hst.name left h).2] at hl
      cases hl
    have hold := Stage.run_spelled ht (hf _ hm) hq hroute hn hst.route
    have hfun := hc'.function ▸ hf _ hm
    have hnew := Stage.run_spelled hnew hfun hq (hc'.route.trans hroute) hn hst.route
    rw [replacePieces, Stage.run_append, Stage.run_append, hold, hnew]
    rcases Stage.across_of_subset hc'.quotes hst.route with h | h
    · rw [h]
      exact ih (hst.across q name c.body _) _
    · rw [h, Stage.run_dead]
      exact .inr rfl

/-- No call comes about where none was. -/
theorem read_replacePieces_eq_none (hf : AreWords functions)
    (hfound : ∀ {i last c old rest}, Call.read functions last (old ++ rest) = some (c, rest) →
      ∃ c', c.Redone c' ∧ c'.Spelled ((f ⟨i, c, old⟩).getD old))
    {last : Option Char} {d : Char} {s : Text} {pieces : List (Piece Call)} {i : Nat}
    (hr : Call.read functions last (d :: s) = none)
    (hs : Scans (Call.read functions) (some d) s pieces) :
    Call.read functions last (d :: replacePieces f i pieces) = none := by
  refine Option.eq_none_iff_forall_ne_some.mpr ?_
  rintro ⟨c, rest⟩ hc
  obtain ⟨hl, hm, t, ht, he⟩ := (Call.read_iff hf).mp hc
  have hdone := isSome_readCallOf_iff.mp ⟨c, rest, readCallOf_iff.mpr ⟨rfl, t, ht, he⟩⟩
  rw [Stage.run_cons] at hdone
  rcases run_replacePieces hf hfound hs (Stage.fits_step_name (hf _ hm) d) i with h | h
  · rw [h, ← Stage.run_cons] at hdone
    obtain ⟨c', rest', hc'⟩ := isSome_readCallOf_iff.mpr hdone
    obtain ⟨hfun, ht'⟩ := readCallOf_iff.mp hc'
    rw [(Call.read_iff hf).mpr ⟨hl, hfun ▸ hm, ht'⟩] at hr
    cases hr
  · rw [h] at hdone
    cases hdone

end Functions

/-! ## Layout -/

section Layout

variable {style : Style} {newline reference : Text}

/-- The call that takes the place of `c`, if `out` is the body of its hash laid out. -/
def Call.relaid (newline reference out : Text) (c : Call) : Call :=
  { c with body := newline ++ out ++ (newline ++ reference) }

/-- A call that was laid out is a call again. -/
theorem Call.spelled_relaid (hn : Blank newline) (href : Blank reference)
    (hu : Blank style.indentUnit) {c : Call} {old new out : Text} (hc : c.Spelled old)
    (hout : Hash.layout c.body (reference ++ style.indentUnit) newline = some out)
    (hnew : c.layout style newline reference = some new) :
    (c.relaid newline reference out).Spelled new := by
  have hblank : ∀ {b : Text}, Blank b → ∀ d ∈ b, isBodyChar d = true :=
    fun hb d hd => Stage.isBodyChar_of_isBlank (hb d hd)
  refine ⟨hc.route, ?_, [], [], [' '], [], .nil, .nil, .of_all (by decide), .nil, ?_⟩
  · refine List.forall_mem_append.mpr ⟨List.forall_mem_append.mpr ⟨hblank hn, ?_⟩,
      hblank (hn.append href)⟩
    exact Hash.forall_mem_layout (List.all_eq_true.mp (by decide)) hc.body
      (hblank (href.append hu)) (hblank hn) hout
  · rw [layout, hout] at hnew
    cases hnew
    simp [relaid]

theorem Call.redone_relaid {c : Call} {out : Text}
    (hout : Hash.layout c.body (reference ++ style.indentUnit) newline = some out) :
    c.Redone (c.relaid newline reference out) := by
  refine ⟨rfl, rfl, fun e he hm => ?_⟩
  have hcomma : e ≠ ',' := by
    rintro rfl
    exact absurd he (by decide)
  exact List.mem_append_left _ (List.mem_append_right _
    (Hash.mem_layout hout hm (not_isBlank_of_isQuote he) hcomma))

/-- What is read in the place of a call of the document `s`: itself if there is no edit for it, and
otherwise the call laid out. -/
inductive Call.Remade (style : Style) (newline s : Text) (f : Located Call) : Call → Text → Prop
  | same : editOf style newline s f = none → Remade style newline s f f.value f.text
  | relaid {reference out : Text} {e : Edit} : referenceAt style s f.start = some reference →
      Hash.layout f.value.body (reference ++ style.indentUnit) newline = some out →
      f.value.layout style newline reference = some e.replacement →
      editOf style newline s f = some e →
      Remade style newline s f (f.value.relaid newline reference out) e.replacement

theorem blank_of_referenceAt {s : Text} {i : Nat} (h : referenceAt style s i = some reference) :
    Blank reference := by
  obtain ⟨parts, _, rfl⟩ := Option.map_eq_some_iff.mp h
  exact blank_indentation _

theorem Call.exists_remade (hn : Blank newline) (hu : Blank style.indentUnit) (s : Text)
    {f : Located Call} (hc : f.value.Spelled f.text) :
    ∃ c' new, ((editOf style newline s f).map (·.replacement)).getD f.text = new ∧
      f.value.Redone c' ∧ c'.Spelled new ∧ Remade style newline s f c' new := by
  cases hedit : editOf style newline s f with
  | none => exact ⟨f.value, f.text, rfl, ⟨rfl, rfl, fun _ _ h => h⟩, hc, .same hedit⟩
  | some e =>
    obtain ⟨reference, href, hnew⟩ := exists_reference_of_editOf hedit
    obtain ⟨out, hout, _⟩ := Option.map_eq_some_iff.mp hnew
    exact ⟨f.value.relaid newline reference out, e.replacement, rfl, Call.redone_relaid hout,
      Call.spelled_relaid hn (blank_of_referenceAt href) hu hc hout hnew,
      .relaid href hout hnew hedit⟩

theorem Call.Spelled.getLast?_eq {c : Call} {t : Text} (h : c.Spelled t) :
    t.getLast? = some ')' := by
  obtain ⟨gap, gap', gap'', gap₃, _, _, _, _, rfl⟩ := h.text
  have htext : c.function ++ '(' :: (gap ++ (c.route ++ (gap' ++ ',' :: (gap'' ++ '{' :: (c.body ++
      '}' :: (gap₃ ++ [')'])))))) = (c.function ++ '(' :: (gap ++ (c.route ++ (gap' ++ ',' ::
        (gap'' ++ '{' :: (c.body ++ '}' :: gap₃)))))) ++ [')'] := by
    simp only [List.append_assoc, List.cons_append]
  rw [htext, List.getLast?_append]
  rfl

/-- The calls of a document that was laid out are those of the document, one by one. -/
theorem rescan_layout (hf : AreWords style.functions) (hn : Blank newline)
    (hu : Blank style.indentUnit) (s : Text) :
    Remade (Call.Remade style newline s) 0 (scan (Call.read style.functions) s)
      (scan (Call.read style.functions) (layout style newline s)) := by
  rw [layout_eq_replacePieces]
  refine scan_replacePieces (· = ·) (Call.read_consumes style.functions) rfl (fun _ => rfl) ?_ ?_ s
  · rintro i last _ c old rest rfl hr
    obtain ⟨hl, hm, t, ht, he⟩ := (Call.read_iff hf).mp hr
    obtain rfl := List.append_cancel_right he
    obtain ⟨c', new, hnew, hc', hspelled, hmade⟩ := Call.exists_remade hn hu s (f := ⟨i, c, old⟩) ht
    refine ⟨c', new, hnew, ?_, ht.getLast?_eq.trans hspelled.getLast?_eq.symm, hmade,
      fun rest' => (Call.read_iff hf).mpr ⟨hl, hc'.function ▸ hm, new, hspelled, rfl⟩⟩
    rintro rfl
    exact nomatch hspelled.getLast?_eq
  · rintro i last _ d s' pieces rfl hr hs
    refine read_replacePieces_eq_none hf (fun {i _ c old _} hr => ?_) hr hs
    obtain ⟨_, _, t, ht, he⟩ := (Call.read_iff hf).mp hr
    obtain rfl := List.append_cancel_right he
    obtain ⟨c', new, hnew, hc', hspelled, _⟩ := Call.exists_remade hn hu s (f := ⟨i, c, old⟩) ht
    exact ⟨c', hc', hnew ▸ hspelled⟩

/-- What laying out keeps of a call in the document `s`. It is changed by an edit, or not at
all. -/
structure Kept (style : Style) (newline s : Text) (f f' : Located Call) : Prop where
  function : f'.value.function = f.value.function
  route : f'.value.route = f.value.route
  body : editOf style newline s f = none ∧ f'.text = f.text ∨
    ∃ e, editOf style newline s f = some e ∧ f'.text = e.replacement ∧
      Hash.properties f'.value.body =
        (Hash.properties f.value.body).map fun p => trim (Hash.quoteKey p)

theorem Call.Remade.kept (hn : Blank newline) (hu : Blank style.indentUnit) {s : Text}
    {f : Located Call} {c' : Call} {new : Text} (h : Remade style newline s f c' new) (j : Nat) :
    Kept style newline s f ⟨j, c', new⟩ := by
  cases h with
  | same hedit => exact ⟨rfl, rfl, .inl ⟨hedit, rfl⟩⟩
  | relaid href hout _ hedit =>
    have href := blank_of_referenceAt href
    exact ⟨rfl, rfl, .inr ⟨_, hedit, rfl,
      Hash.properties_of_layout (href.append hu) hn (hn.append href) hout⟩⟩

/-- Laying out route calls keeps what is between them, and their content: each has the same function
and route and the same parameters as before, with quotes around their keys. -/
theorem calls_of_layout (hf : ∀ f ∈ style.functions, f ≠ [] ∧ ∀ c ∈ f, isWord c = true)
    (hn : newline = "\n".toList ∨ newline = "\r\n".toList)
    (hu : ∀ c ∈ style.indentUnit, c = ' ' ∨ c = '\t') (s : Text) :
    fields (scan (Call.read style.functions) (layout style newline s)) =
        fields (scan (Call.read style.functions) s) ∧
      List.Forall₂ (Kept style newline s) (locate 0 (scan (Call.read style.functions) s))
        (locate 0 (scan (Call.read style.functions) (layout style newline s))) := by
  have hn' : Blank newline := by
    rcases hn with rfl | rfl <;> exact .of_all (by decide)
  have hu' : Blank style.indentUnit := blank_of_space_or_tab hu
  have h := rescan_layout (AreNames.areWords hf) hn' hu' s
  exact ⟨h.fields_eq, h.forall₂ (fun _ j _ _ hm => hm.kept hn' hu' j) 0⟩

/-- A call that is laid out, one inside its route that is none, and one before the reference
attribute. -/
theorem calls_of_layout_nested :
    let first := "path('a', \x7bx: 1\x7d) <a href='"
    let s := (first ++ "path(\"path('b', \x7b\x7d)\", \x7b y : f(1, 2), \x7d )").toList
    let out := (first ++
      "path(\"path('b', \x7b\x7d)\", \x7b\n    'y': f(1, 2)\n\x7d)").toList
    layout .default "\n".toList s = out ∧
      fields (scan (Call.read ["path".toList]) out) = fields (scan (Call.read ["path".toList]) s) ∧
      List.Forall₂ (Kept .default "\n".toList s) (locate 0 (scan (Call.read ["path".toList]) s))
        (locate 0 (scan (Call.read ["path".toList]) out)) := by
  intro first s out
  have hout : layout .default "\n".toList s = out := by decide +kernel
  have hnames : AreNames Style.default.functions := areNames_path
  have h := @calls_of_layout .default _ hnames (.inl rfl) (forall_of_all (by decide)) s
  rw [hout] at h
  exact ⟨hout, h⟩

end Layout

end TwigLayout.Route
