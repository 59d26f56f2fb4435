import Mathlib.Data.List.TakeWhile
import TwigLayout.Proofs.Run.Write

/-!
# Files of a run

What a run does to each of its files, said of the tree it started with. A file that is written to
changes neither what another file holds nor how it is formatted, so that the files may be looked at
one by one.

1. `State.formatFile_of_readText`: what becomes of a file that can be read.
2. `State.formatFiles_eq`: what becomes of all of them, up to the first that cannot.
3. `find?_run` and `find?_run_of_not_mem`: what the tree then holds.
-/

namespace TwigLayout

open Text

theorem Writer.isReported_of_noLeaks {s : Text} {e : Fault} (h : Writer.noLeaks s = .error e) :
    e.isReported = true := by
  unfold Writer.noLeaks at h
  split at h
  · cases h
  · cases h
    rfl

namespace CommandLine

/-! ## One file -/

namespace Task

variable [YamlReader]

/-- The text that the file at a path is formatted to. -/
def formatted (task : Task) (t : Tree) (path : String) : Except Fault Text := do
  let s ← t.readText path
  let workspace := (task.workspace.filter (· != "")).getD (Path.directoryOf path)
  ((task.pipeline path).format task.formatter t s path (some workspace)).result

/-- The file is a template that cannot be formatted. -/
def refuses (task : Task) (t : Tree) (path : String) : Bool :=
  languageOf path = templateLanguage && !(task.formatted t path).isOk

/-- The new text of a file: what it is formatted to, if it is a template and holds another text. -/
def newText? (task : Task) (t : Tree) (path : String) : Option Text :=
  match task.formatted t path with
  | .ok s => if languageOf path = templateLanguage ∧ t.readText path ≠ .ok s then some s else none
  | .error _ => none

/-- The text that is written to a file: its new text, unless it is only asked for or writing
fails. -/
def written? (task : Task) (t : Tree) (path : String) : Option Text :=
  (task.newText? t path).filter fun s =>
    !task.check && (Writer.write Writer.noLeaks path s t).result.isOk

/-- Whether a file counts as changed: its new text is written, or asked for. -/
def changes (task : Task) (t : Tree) (path : String) : Bool :=
  (task.newText? t path).isSome && (task.check || (task.written? t path).isSome)

/-- Whether a file fails: it cannot be formatted, or its new text not be written. -/
def fails (task : Task) (t : Tree) (path : String) : Bool :=
  task.refuses t path ||
    ((task.newText? t path).isSome && !task.check && (task.written? t path).isNone)

/-- The tree `u` with the text that is written to a file of the tree `t`. -/
def store (task : Task) (t u : Tree) (path : String) : Tree :=
  match task.written? t path with
  | some s => u.put (Path.resolve path) (.file { content := Utf8.encode s })
  | none => u

variable {task : Task} {t u : Tree} {path : String} {s : Text}

theorem formatted_of_readText (hr : t.readText path = .ok s) :
    task.formatted t path = ((task.pipeline path).format task.formatter t s path
      (some ((task.workspace.filter (· != "")).getD (Path.directoryOf path)))).result := by
  rw [formatted, hr]
  rfl

theorem formatted_of_error {e : Fault} (hr : t.readText path = .error e) :
    task.formatted t path = .error e := by
  rw [formatted, hr]
  rfl

theorem newText?_eq_some_iff : task.newText? t path = some s ↔
    languageOf path = templateLanguage ∧ task.formatted t path = .ok s ∧
      t.readText path ≠ .ok s := by
  rw [newText?]
  split
  · next s' hs =>
    rw [hs, Except.ok.injEq, Option.ite_none_right_eq_some, Option.some.injEq]
    constructor
    · rintro ⟨⟨hl, hr⟩, rfl⟩
      exact ⟨hl, rfl, hr⟩
    · rintro ⟨hl, rfl, hr⟩
      exact ⟨⟨hl, hr⟩, rfl⟩
  · next e he => simp [he]

theorem newText?_of_written? (h : task.written? t path = some s) :
    task.newText? t path = some s := (Option.filter_eq_some_iff.mp h).1

/-- Only templates have a new text, and only such that are there. -/
theorem exists_of_newText? (h : task.newText? t path = some s) :
    IsTemplateName path ∧ ∃ text, t.readText path = .ok text := by
  obtain ⟨hl, hf, _⟩ := newText?_eq_some_iff.mp h
  obtain ⟨text, hr, _⟩ := bind_eq_ok.mp hf
  exact ⟨languageOf_eq_iff.mp hl, text, hr⟩

theorem newText?_of_ok {text : Text} (hl : languageOf path = templateLanguage)
    (hr : t.readText path = .ok text) (hf : task.formatted t path = .ok s) :
    task.newText? t path = if s = text then none else some s := by
  simp only [newText?, hf, hr, hl, true_and, ne_eq, Except.ok.injEq, ite_not, eq_comm]

theorem newText?_of_error {e : Fault} (h : task.formatted t path = .error e) :
    task.newText? t path = none := by
  rw [newText?, h]

theorem refuses_of_ok (h : task.formatted t path = .ok s) : task.refuses t path = false := by
  rw [refuses, h]
  exact Bool.and_false _

theorem refuses_of_newText? (h : task.newText? t path = some s) : task.refuses t path = false :=
  refuses_of_ok (newText?_eq_some_iff.mp h).2.1

theorem refuses_of_error {e : Fault} (hl : languageOf path = templateLanguage)
    (h : task.formatted t path = .error e) : task.refuses t path = true := by
  rw [refuses, h, decide_eq_true hl]
  rfl

/-- A file that is no template is passed over. -/
theorem of_language_ne (hl : languageOf path ≠ templateLanguage) :
    task.newText? t path = none ∧ task.refuses t path = false := by
  refine ⟨Option.eq_none_iff_forall_ne_some.mpr fun _ h => hl (newText?_eq_some_iff.mp h).1, ?_⟩
  rw [refuses, decide_eq_false hl]
  rfl

/-- A task that only asks writes nothing. -/
theorem written?_of_check (h : task.check = true) : task.written? t path = none := by
  rw [written?, h]
  cases task.newText? t path with
  | none => rfl
  | some s => rfl

/-- The document that stands for a file with the text `s`. -/
def document (task : Task) (path : String) (s : Text) : Document :=
  ⟨s, path, languageOf path, task.workspace⟩

theorem edits_document (hr : t.readText path = .ok s) :
    ((task.document path s).edits (task.pipeline path) task.formatter t).edits =
      match task.formatted t path with
      | .ok new => [⟨(task.document path s).fullRange, new⟩]
      | .error _ => [] := by
  have hformatted : task.formatted t path = _ := formatted_of_readText hr
  cases hf : task.formatted t path with
  | error e => simp only [Document.edits, document, ← hformatted, hf]
  | ok new => simp only [Document.edits, document, ← hformatted, hf]

/-! ## Recast trees -/

section Recast

variable (h : t.Recast u) (hsame : u.find? (Path.resolve path) = t.find? (Path.resolve path))

include h hsame

theorem formatted_eq : task.formatted u path = task.formatted t path := by
  unfold formatted
  rw [h.readText_eq hsame]
  simp only [h.format_eq]

theorem newText?_eq : task.newText? u path = task.newText? t path := by
  unfold newText?
  rw [formatted_eq h hsame, h.readText_eq hsame]

theorem refuses_eq : task.refuses u path = task.refuses t path := by
  unfold refuses
  rw [formatted_eq h hsame]

end Recast

/-! ## Stored texts -/

theorem recast_store (h : t.Recast u) : t.Recast (task.store t u path) := by
  unfold store
  split
  · next s hs =>
    obtain ⟨hpath, text, hr⟩ := exists_of_newText? (newText?_of_written? hs)
    obtain ⟨bytes, hb⟩ := Tree.readText_eq_ok hr
    obtain ⟨_, _, f, hfile, _⟩ := Tree.readBytes_eq_ok hb
    exact h.put (Path.isTemplate_resolve hpath) ⟨f, hfile⟩ _
  · exact h

theorem find?_store_of_ne {q : Path} (h : q ≠ Path.resolve path) :
    (task.store t u path).find? q = u.find? q := by
  unfold store
  split
  · exact Tree.find?_put_of_ne h _ u
  · rfl

/-- What a file holds after its turn: the text that was written, or what it held before. -/
theorem find?_store_self : (task.store t u path).find? (Path.resolve path) =
    ((task.written? t path).map fun s => .file { content := Utf8.encode s }).or
      (u.find? (Path.resolve path)) := by
  unfold store
  cases hs : task.written? t path with
  | none => rfl
  | some s =>
    obtain ⟨hpath, _⟩ := exists_of_newText? (newText?_of_written? hs)
    exact Tree.find?_put_self (Path.isTemplate_resolve hpath).ne_nil _ u

theorem find?_stores_of_not_mem {q : Path} {paths : List String}
    (h : q ∉ paths.map Path.resolve) : (paths.foldl (task.store t) u).find? q = u.find? q := by
  induction paths generalizing u with
  | nil => rfl
  | cons path paths ih =>
    rw [List.map_cons, List.mem_cons, not_or] at h
    rw [List.foldl_cons, ih h.2, find?_store_of_ne h.1]

theorem find?_stores_of_mem {paths : List String} (hn : (paths.map Path.resolve).Nodup)
    (h : path ∈ paths) : (paths.foldl (task.store t) u).find? (Path.resolve path) =
      ((task.written? t path).map fun s => .file { content := Utf8.encode s }).or
        (u.find? (Path.resolve path)) := by
  induction paths generalizing u with
  | nil => exact absurd h List.not_mem_nil
  | cons first paths ih =>
    rw [List.map_cons, List.nodup_cons] at hn
    rw [List.foldl_cons]
    rcases List.mem_cons.mp h with rfl | h
    · rw [find?_stores_of_not_mem hn.1, find?_store_self]
    · have hne : Path.resolve path ≠ Path.resolve first := fun he =>
        hn.1 (he ▸ List.mem_map_of_mem h)
      rw [ih hn.2 h, find?_store_of_ne hne]

end Task

/-! ## Steps -/

namespace State

variable {task : Task} {t : Tree} {path : String} {s : Text} {st : State}

/-- An edit of the whole document. -/
theorem update_fullRange (st : State) (d : Document) (s : Text) :
    st.update task d [⟨d.fullRange, s⟩] =
      if s = d.text then st
      else if task.check then { st with changed := st.changed ++ [d.file] }
      else st.save d.file s := by
  unfold update Document.applyEdits
  simp only [List.foldlM_cons, List.foldlM_nil, if_true]
  rfl

theorem tree_outcome (st : State) (a : Arguments) : (st.outcome a).tree = st.tree := by
  unfold outcome
  split
  · rfl
  · rfl

section Steps

variable [YamlReader]

/-- Writing the new text of a file. -/
theorem save_eq (st : State) (h : t.Recast st.tree)
    (hsame : st.tree.find? (Path.resolve path) = t.find? (Path.resolve path))
    (hcheck : task.check = false) (hnew : task.newText? t path = some s)
    (hcrash : st.crash = none) :
    (st.save path s).tree = task.store t st.tree path ∧
      (st.save path s).failed = (st.failed || (task.written? t path).isNone) ∧
      (st.save path s).changed = st.changed ++
        (if (task.written? t path).isSome then [path] else []) ∧
      (st.save path s).crash = none := by
  obtain ⟨hpath, text, hr⟩ := Task.exists_of_newText? hnew
  have hr' := (h.readText_eq hsame).trans hr
  have hwritten : task.written? t path =
      if (Writer.write Writer.noLeaks path s t).result.isOk then some s else none := by
    rw [Task.written?, hnew, Option.filter_some, hcheck]
    rfl
  unfold save Task.store
  rw [hwritten, Writer.write_of_readText hpath hr, Writer.write_of_readText hpath hr']
  by_cases hlong : Writer.tooLong path = true
  · rw [if_pos hlong, if_pos hlong]
    simp [Except.isOk, Except.toBool, Fault.isReported, note, tell, hcrash]
  · rw [if_neg hlong, if_neg hlong]
    cases hleaks : Writer.noLeaks s with
    | error e =>
      have he := Writer.isReported_of_noLeaks hleaks
      simp [Except.isOk, Except.toBool, he, note, tell, hcrash]
    | ok u => simp [Except.isOk, Except.toBool, hcrash]

theorem formatFile_of_error {e : Fault} (h : st.tree.readText path = .error e) :
    st.formatFile task path = { st with crash := some e } := by
  unfold formatFile Document.read
  rw [h]
  rfl

theorem formatFile_eq_ite (st : State) (hs : st.tree.readText path = .ok s) :
    st.formatFile task path =
      if languageOf path = templateLanguage then
        let f := (task.document path s).edits (task.pipeline path) task.formatter st.tree
        (st.record f).update task (task.document path s) f.edits
      else st.note .warning s!"Skipping {path}: not a Twig template" := by
  have hread : Document.read st.tree path task.workspace = .ok (task.document path s) := by
    unfold Document.read
    rw [hs]
    rfl
  unfold formatFile Document.edits?
  by_cases hl : languageOf path = templateLanguage
  · simp only [hread, Task.document, if_pos hl]
  · simp only [hread, Task.document, if_neg hl]

/-- What a step does to a file that can be read: its new text is counted or written, and one without
a new text may be one that cannot be formatted. All else is lines of output. -/
theorem exists_formatFile_eq (task : Task) (st : State) (hs : st.tree.readText path = .ok s) :
    ∃ lines, st.formatFile task path =
      match task.newText? st.tree path with
      | some new =>
        if task.check then { st with lines := lines, changed := st.changed ++ [path] }
        else { st with lines := lines }.save path new
      | none => { st with lines := lines, failed := st.failed || task.refuses st.tree path } := by
  rw [formatFile_eq_ite st hs]
  by_cases hl : languageOf path = templateLanguage
  · let f := (task.document path s).edits (task.pipeline path) task.formatter st.tree
    refine ⟨(st.record f).lines, ?_⟩
    simp only [if_pos hl, Task.edits_document hs]
    cases hf : task.formatted st.tree path with
    | error e =>
      rw [Task.newText?_of_error hf, Task.refuses_of_error hl hf, Bool.or_true]
      rfl
    | ok new =>
      rw [update_fullRange, Task.newText?_of_ok hl hs hf, Task.refuses_of_ok hf, Bool.or_false]
      by_cases he : new = s
      · rw [if_pos he]
        exact if_pos he
      · rw [if_neg he]
        exact if_neg he
  · obtain ⟨hnew, hrefuses⟩ :
        task.newText? st.tree path = none ∧ task.refuses st.tree path = false :=
      Task.of_language_ne hl
    rw [if_neg hl, hnew, hrefuses, Bool.or_false]
    exact ⟨(st.note .warning s!"Skipping {path}: not a Twig template").lines, rfl⟩

/-- What becomes of a file that can be read, in a recast of the tree that the run started with. -/
theorem formatFile_of_readText (task : Task) (h : t.Recast st.tree)
    (hsame : st.tree.find? (Path.resolve path) = t.find? (Path.resolve path))
    (hs : t.readText path = .ok s) (hcrash : st.crash = none) :
    (st.formatFile task path).tree = task.store t st.tree path ∧
      (st.formatFile task path).failed = (st.failed || task.fails t path) ∧
      (st.formatFile task path).changed = st.changed ++
        (if task.changes t path then [path] else []) ∧
      (st.formatFile task path).crash = none := by
  obtain ⟨lines, hstep⟩ := exists_formatFile_eq task st ((h.readText_eq hsame).trans hs)
  rw [Task.newText?_eq h hsame, Task.refuses_eq h hsame] at hstep
  rw [hstep, Task.fails, Task.changes]
  cases hnew : task.newText? t path with
  | none =>
    have hwritten : task.written? t path = none := by
      rw [Task.written?, hnew]
      rfl
    rw [Task.store, hwritten]
    simp [hcrash]
  | some new =>
    rw [Task.refuses_of_newText? hnew]
    cases hcheck : task.check with
    | true =>
      rw [Task.store, Task.written?_of_check hcheck]
      simp [hcrash]
    | false =>
      obtain ⟨h₁, h₂, h₃, h₄⟩ := save_eq { st with lines := lines } h hsame hcheck hnew hcrash
      exact ⟨h₁, by simpa using h₂, by simpa using h₃, h₄⟩

end Steps

/-! ## Runs -/

/-- The files that a run gets to: those before the first that cannot be read. -/
def reached (t : Tree) (paths : List String) : List String :=
  paths.takeWhile fun path => (t.readText path).isOk

theorem reached_eq_self {paths : List String}
    (h : ∀ path ∈ paths, ∃ s, t.readText path = .ok s) : reached t paths = paths := by
  refine List.takeWhile_eq_self_iff.mpr fun path hp => ?_
  obtain ⟨s, hs⟩ := h path hp
  rw [hs]
  rfl

/-- Nothing else that a run gets to leads to the place of a file that it does not get to. -/
theorem resolve_not_mem_reached {paths : List String}
    (hdistinct : (paths.map Path.resolve).Nodup) (hp : path ∈ paths) (h : path ∉ reached t paths) :
    Path.resolve path ∉ (reached t paths).map Path.resolve := by
  intro hm
  obtain ⟨other, ho, he⟩ := List.mem_map.mp hm
  have hother : other ∈ paths := (List.takeWhile_sublist _).subset ho
  rw [List.inj_on_of_nodup_map hdistinct hother hp he] at ho
  exact h ho

/-- What becomes of the files of a run, said of the tree that it started with. -/
theorem formatFiles_eq [YamlReader] (task : Task) {paths : List String} (st : State)
    (hn : (paths.map Path.resolve).Nodup) (h : t.Recast st.tree)
    (hsame : ∀ path ∈ paths, st.tree.find? (Path.resolve path) = t.find? (Path.resolve path))
    (hcrash : st.crash = none) :
    (formatFiles task paths st).tree = (reached t paths).foldl (task.store t) st.tree ∧
      (formatFiles task paths st).failed = (st.failed || (reached t paths).any (task.fails t)) ∧
      (formatFiles task paths st).changed = st.changed ++
        (reached t paths).filter (task.changes t) ∧
      ((formatFiles task paths st).crash = none ↔ reached t paths = paths) := by
  induction paths generalizing st with
  | nil => simp [formatFiles, reached, hcrash]
  | cons path paths ih =>
    rw [List.map_cons, List.nodup_cons] at hn
    obtain ⟨hpath, hpaths⟩ := List.forall_mem_cons.mp hsame
    rw [formatFiles, reached]
    cases hs : t.readText path with
    | error e =>
      have hread : st.tree.readText path = .error e := (h.readText_eq hpath).trans hs
      rw [List.takeWhile_cons_of_neg (by simp [hs, Except.isOk, Except.toBool]),
        formatFile_of_error hread]
      simp
    | ok s =>
      obtain ⟨htree, hfailed, hchanged, hnone⟩ := formatFile_of_readText task h hpath hs hcrash
      -- the files still to come are as they were
      have hrecast : t.Recast (st.formatFile task path).tree := htree ▸ Task.recast_store h
      have hrest : ∀ q ∈ paths, (st.formatFile task path).tree.find? (Path.resolve q) =
          t.find? (Path.resolve q) := by
        intro q hq
        have hne : Path.resolve q ≠ Path.resolve path := fun he =>
          hn.1 (he ▸ List.mem_map_of_mem hq)
        rw [htree, Task.find?_store_of_ne hne, hpaths q hq]
      obtain ⟨h₁, h₂, h₃, h₄⟩ := ih _ hn.2 hrecast hrest hnone
      rw [List.takeWhile_cons_of_pos (by simp [hs, Except.isOk, Except.toBool]), ← reached]
      rw [htree] at h₁
      rw [hfailed] at h₂
      rw [hchanged] at h₃
      simp only [hnone, Option.isSome_none, Bool.false_eq_true, if_false]
      refine ⟨h₁, ?_, ?_, ?_⟩
      · rw [h₂, List.any_cons, Bool.or_assoc]
      · rw [h₃, List.append_assoc, List.filter_cons]
        split
        · rfl
        · rfl
      · rw [h₄, List.cons.injEq]
        exact (and_iff_right rfl).symm

end State

section Run

variable [YamlReader] [ArgumentReader] {t : Tree} {child : Engine.Child} {optionsFile : String}
  {cwd : Path} {args : List String} {draws : Draws} {a : Arguments}

/-- A run that does not get to its files changes nothing. -/
theorem tree_run_of_error (hargs : ArgumentReader.read t cwd args = .run a) {e : Fault}
    (htask : (taskOf t child optionsFile draws a).result = .error e) :
    (run t child optionsFile cwd args draws).tree = t := by
  unfold run
  simp only [hargs, htask]
  exact State.tree_outcome _ a

variable {task : Task} (hargs : ArgumentReader.read t cwd args = .run a)
  (htask : (taskOf t child optionsFile draws a).result = .ok task)
  (hn : (a.paths.map Path.resolve).Nodup)

include hargs htask hn

/-- The tree after a run: that before it, with the texts that are written to the files reached. -/
theorem tree_run : (run t child optionsFile cwd args draws).tree =
    (State.reached t a.paths).foldl (task.store t) t := by
  unfold run
  simp only [hargs, htask]
  rw [State.tree_outcome]
  exact (State.formatFiles_eq task _ hn (.refl t) (fun _ _ => rfl) rfl).1

theorem find?_run_of_not_mem {q : Path} (hq : q ∉ (State.reached t a.paths).map Path.resolve) :
    (run t child optionsFile cwd args draws).tree.find? q = t.find? q := by
  rw [tree_run hargs htask hn]
  exact Task.find?_stores_of_not_mem hq

/-- What a file holds after a run: the text that is written to it if the run gets to it, and else
what it held before. -/
theorem find?_run {path : String} (hp : path ∈ a.paths) :
    (run t child optionsFile cwd args draws).tree.find? (Path.resolve path) =
      if path ∈ State.reached t a.paths then
        ((task.written? t path).map fun s => .file { content := Utf8.encode s }).or
          (t.find? (Path.resolve path))
      else t.find? (Path.resolve path) := by
  split
  · next h =>
    have hreached : ((State.reached t a.paths).map Path.resolve).Nodup :=
      hn.sublist ((List.takeWhile_sublist _).map Path.resolve)
    rw [tree_run hargs htask hn]
    exact Task.find?_stores_of_mem hreached h
  · next h =>
    exact find?_run_of_not_mem hargs htask hn (State.resolve_not_mem_reached hn hp h)

/-- What a run over files that can all be read tells. -/
theorem outcome_run (htexts : ∀ path ∈ a.paths, ∃ s, t.readText path = .ok s) :
    (run t child optionsFile cwd args draws).crash = none ∧
      (run t child optionsFile cwd args draws).stdout =
        summary a.check (a.paths.filter (task.changes t)) ∧
      (run t child optionsFile cwd args draws).exitCode =
        if a.paths.any (task.fails t) ||
          (a.check && !(a.paths.filter (task.changes t)).isEmpty) then 1 else 0 := by
  unfold run
  simp only [hargs, htask]
  obtain ⟨_, hfailed, hchanged, hcrash⟩ := State.formatFiles_eq task
    ⟨t, (taskOf t child optionsFile draws a).log.map .note, false, [], none⟩ hn (.refl t)
    (fun _ _ => rfl) rfl
  rw [State.reached_eq_self htexts] at hfailed hchanged hcrash
  unfold State.outcome
  simp only [hcrash.mpr rfl, hfailed, hchanged, Bool.false_or, List.nil_append, and_self]

end Run

end CommandLine

end TwigLayout
