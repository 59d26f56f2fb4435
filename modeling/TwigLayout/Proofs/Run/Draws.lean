import TwigLayout.Proofs.Placeholder.Region
import TwigLayout.Proofs.Run.Files

/-!
# Draws of a run

Two runs over one tree may draw other suffixes for their tokens, and hand the engine its options in
another file. All else in their tasks is the same (`taskOf_inRun`), and a file that both of them
format to the same text comes out alike (`FormatsAlike`).

1. `formatsAlike_of_eq`: they do so if they draw the same for the file.
2. `formatsAlike_of_hidesNothing`: draws are made only where something is hidden, so a file that has
   nothing to hide is formatted alike whatever is drawn.
-/

namespace TwigLayout

open Text Placeholder

/-! ## Texts with nothing to hide -/

/-- Findings that are not accepted stay text, and nothing is drawn for them. -/
theorem Placeholder.assign_of_refused {α : Type} {supply : Supply} {source : Text}
    {accepts : α → Text → Except Fault Bool} {pieces : List (Piece α)}
    (h : ∀ value s, .found value s ∈ pieces → accepts value s = .ok false) (t : Table) :
    assign supply source accepts pieces t = .ok ((pieces.flatMap Piece.text).map .plain, t) := by
  induction pieces with
  | nil => rfl
  | cons piece pieces ih =>
    have hrest := ih fun value s hm => h value s (List.mem_cons_of_mem _ hm)
    cases piece with
    | plain c =>
      rw [assign, hrest]
      rfl
    | found value s =>
      rw [assign, h value s List.mem_cons_self, hrest, List.flatMap_cons, List.map_append]
      rfl

theorem Placeholder.flatMap_shown_map_plain (s : Text) : (s.map .plain).flatMap shown = s := by
  induction s with
  | nil => rfl
  | cons c s ih => rw [List.map_cons, List.flatMap_cons, ih, shown, List.singleton_append]

namespace Pipeline

/-- A text without comments whose elements are all too long to be hidden, or components. -/
structure HidesNothing (layout : Layout) (s : Text) : Prop where
  comments : ∀ body, .found () body ∉ Comment.pieces layout.comment s
  elements : ∀ element body, .found element body ∈ Element.pieces s →
    layout.inline.accepts element body = .ok false

variable {p : Pipeline} {s : Text}

theorem hidesNothing_of_eq {layout : Layout}
    (hcomments : Comment.pieces layout.comment s = s.map .plain)
    (helements : Element.pieces s = s.map .plain) : HidesNothing layout s where
  comments body hm := by
    rw [hcomments] at hm
    simp at hm
  elements element body hm := by
    rw [helements] at hm
    simp at hm

theorem result_hide_of_hidesNothing (h : HidesNothing p.layout s) : (p.hide s).result =
    .ok ⟨s, .empty Kind.comment.label, .empty Kind.inline.label⟩ := by
  have hcomments : shieldComments (p.supply .comment) p.layout.comment s =
      .ok (s, .empty Kind.comment.label) := by
    rw [shieldComments, assignComments,
      assign_of_refused (fun _ body hm => (h.comments body hm).elim), Comment.flatMap_text_pieces]
    exact congrArg (fun code => Except.ok (code, _)) (flatMap_shown_map_plain s)
  have helements : shieldElements (p.supply .inline) p.layout.inline s =
      .ok (s, .empty Kind.inline.label) := by
    rw [shieldElements, assignElements, assign_of_refused h.elements, Element.pieces,
      flatMap_text_scan]
    exact congrArg (fun code => Except.ok (code, _)) (flatMap_shown_map_plain s)
  refine Logged.result_bind_eq_ok.mpr ⟨_, hcomments, ?_⟩
  refine Logged.result_bind_eq_ok.mpr ⟨(), rfl, ?_⟩
  refine Logged.result_bind_eq_ok.mpr ⟨_, helements, ?_⟩
  exact Logged.result_bind_eq_ok.mpr ⟨(), rfl, rfl⟩

/-- A text with nothing to hide is formatted alike whatever is drawn. -/
theorem result_format_of_hidesNothing [YamlReader] (h : HidesNothing p.layout s)
    (supply : Kind → Supply) (formatter : Formatter) (t : Tree) (file : String)
    (workspace : Option String) :
    ({ p with supply := supply }.format formatter t s file workspace).result =
      (p.format formatter t s file workspace).result := by
  have hother : ({ p with supply := supply }.hide s).result = _ := result_hide_of_hidesNothing h
  unfold format prepare
  simp only [Logged.result_bind, hother, result_hide_of_hidesNothing h]
  rfl

end Pipeline

/-! ## Tasks of two runs -/

namespace CommandLine

variable {t : Tree} {child : Engine.Child} {optionsFile otherFile : String} {draws others : Draws}
  {a b : Arguments} {task : Task} {path : String}

/-- The task of another run with the same settings. -/
def Task.inRun (task : Task) (child : Engine.Child) (optionsFile : String) (draws : Draws)
    (a : Arguments) : Task :=
  ⟨task.layout, task.engine, draws, Engine.format task.engine child optionsFile, a.workspace,
    a.check⟩

/-- Runs with the same settings have the same tasks, but for the draws, the file with the options,
and what the arguments say themselves. -/
theorem taskOf_inRun (htask : (taskOf t child optionsFile draws a).result = .ok task)
    (hconfig : b.config = a.config) :
    (taskOf t child otherFile others b).result = .ok (task.inRun child otherFile others b) := by
  obtain ⟨settings, hsettings, htask⟩ := Logged.result_bind_eq_ok.mp htask
  obtain ⟨layout, hlayout, htask⟩ := Logged.result_bind_eq_ok.mp htask
  obtain ⟨engine, hengine, htask⟩ := Logged.result_bind_eq_ok.mp htask
  obtain ⟨available, havailable, htask⟩ := Logged.result_bind_eq_ok.mp htask
  rw [← hconfig] at hsettings
  refine Logged.result_bind_eq_ok.mpr ⟨settings, hsettings, ?_⟩
  refine Logged.result_bind_eq_ok.mpr ⟨layout, hlayout, ?_⟩
  refine Logged.result_bind_eq_ok.mpr ⟨engine, hengine, ?_⟩
  refine Logged.result_bind_eq_ok.mpr ⟨available, havailable, ?_⟩
  cases available with
  | true =>
    cases htask
    rfl
  | false =>
    obtain ⟨items, hitems, htask⟩ := Logged.result_bind_eq_ok.mp htask
    obtain ⟨command, hcommand, htask⟩ := Logged.result_bind_eq_ok.mp htask
    obtain ⟨_, _, htask⟩ := Logged.result_bind_eq_ok.mp htask
    cases htask
    refine Logged.result_bind_eq_ok.mpr ⟨items, hitems, ?_⟩
    refine Logged.result_bind_eq_ok.mpr ⟨command, hcommand, ?_⟩
    exact Logged.result_bind_eq_ok.mpr ⟨(), rfl, rfl⟩

/-- So if one of them does not get to its files, none does. -/
theorem exists_taskOf_error {e : Fault}
    (herror : (taskOf t child optionsFile draws a).result = .error e)
    (hconfig : b.config = a.config) :
    ∃ e, (taskOf t child otherFile others b).result = .error e := by
  cases htask : (taskOf t child otherFile others b).result with
  | error e => exact ⟨e, rfl⟩
  | ok task => cases herror.symm.trans (taskOf_inRun htask hconfig.symm)

theorem eq_inRun_of_taskOf (htask : (taskOf t child optionsFile draws a).result = .ok task) :
    task = task.inRun child optionsFile draws a :=
  Except.ok.inj (htask.symm.trans (taskOf_inRun htask rfl))

section Alike

variable [YamlReader]

/-- Two runs over the same tree format a file to the same text, or neither of them does. -/
def FormatsAlike (t : Tree) (child : Engine.Child) (optionsFile : String) (draws : Draws)
    (otherFile : String) (others : Draws) (a : Arguments) (path : String) : Prop :=
  ∀ task, (taskOf t child optionsFile draws a).result = .ok task →
    (task.inRun child otherFile others a).formatted t path = task.formatted t path

/-- Runs format a file alike if its pipeline does so with the draws of both. -/
theorem formatsAlike_of_format
    (h : ∀ task s, (taskOf t child optionsFile draws a).result = .ok task →
      t.readText path = .ok s → ∀ formatter workspace,
        ({ task.pipeline path with supply := others path }.format formatter t s path
          workspace).result =
          ((task.pipeline path).format formatter t s path workspace).result) :
    FormatsAlike t child optionsFile draws optionsFile others a path := by
  intro task htask
  have hformatter : task.formatter = Engine.format task.engine child optionsFile :=
    congrArg Task.formatter (eq_inRun_of_taskOf htask)
  have hworkspace : task.workspace = a.workspace :=
    congrArg Task.workspace (eq_inRun_of_taskOf htask)
  cases hs : t.readText path with
  | error e => rw [Task.formatted_of_error hs, Task.formatted_of_error hs]
  | ok s =>
    rw [Task.formatted_of_readText hs, Task.formatted_of_readText hs, ← h task s htask hs,
      hformatter, hworkspace]
    rfl

/-- Runs that draw the same for a file format it alike. -/
theorem formatsAlike_of_eq (h : others path = draws path) :
    FormatsAlike t child optionsFile draws optionsFile others a path := by
  refine formatsAlike_of_format fun task s htask _ formatter workspace => ?_
  have hdraws : task.draws = draws := congrArg Task.draws (eq_inRun_of_taskOf htask)
  rw [h, ← hdraws]
  rfl

/-- Whatever they draw, runs format a file alike that has nothing to hide. -/
theorem formatsAlike_of_hidesNothing (draws others : Draws)
    (h : ∀ task, (taskOf t child optionsFile draws a).result = .ok task →
      ∀ s, t.readText path = .ok s → Pipeline.HidesNothing task.layout s) :
    FormatsAlike t child optionsFile draws optionsFile others a path :=
  formatsAlike_of_format fun task s htask hs formatter =>
    Pipeline.result_format_of_hidesNothing (p := task.pipeline path) (h task htask s hs)
      (others path) formatter t path

end Alike

end CommandLine

end TwigLayout
