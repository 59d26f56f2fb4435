import TwigLayout.Proofs.Run.Draws

/-!
# Asking and writing

A run that only asks which files would change, and one over the same files that writes them, agree:
what the first reports is what the second rewrites, but for the texts that still hold a token
(`run_check_agrees`). Each of the two draws for itself. They agree about a file that both of them
format alike, and need not about one that they do not.
-/

namespace TwigLayout.CommandLine

open Text

variable {t : Tree} {child : Engine.Child} {optionsFile asksFile : String} {draws asks : Draws}
  {a : Arguments} {task asking : Task}

/-! ## What is written -/

/-- A new text that the system takes is written if it holds no token. -/
theorem isOk_write [YamlReader] {path : String} {s : Text} (hnew : task.newText? t path = some s)
    (hsystem : ∀ cause place, (Writer.write Writer.noLeaks path s t).result ≠
      .error (.file cause place)) :
    (Writer.write Writer.noLeaks path s t).result.isOk = (Writer.noLeaks s).isOk := by
  obtain ⟨hpath, text, hr⟩ := Task.exists_of_newText? hnew
  rw [Writer.write_of_readText hpath hr] at hsystem ⊢
  split
  · next hlong =>
    rw [if_pos hlong] at hsystem
    exact absurd rfl (hsystem _ _)
  · cases Writer.noLeaks s with
    | error e => rfl
    | ok u => rfl

namespace Task

variable [YamlReader] {path : String}

section Asks

variable (h : task.check = true)

include h

theorem store_of_check (u : Tree) : task.store t u path = u := by
  rw [store, written?_of_check h]

theorem changes_of_check : task.changes t path = (task.newText? t path).isSome := by
  rw [changes, h, Bool.true_or, Bool.and_true]

theorem fails_of_check : task.fails t path = task.refuses t path := by
  rw [fails, h, Bool.not_true, Bool.and_false, Bool.false_and, Bool.or_false]

end Asks

section Writes

variable (h : task.check = false)
  (hsystem : ∀ s, task.newText? t path = some s → ∀ cause place,
    (Writer.write Writer.noLeaks path s t).result ≠ .error (.file cause place))

include h hsystem

theorem written?_eq_filter :
    task.written? t path = (task.newText? t path).filter fun s => (Writer.noLeaks s).isOk := by
  rw [written?, h]
  cases hnew : task.newText? t path with
  | none => rfl
  | some s =>
    rw [Option.filter_some, Option.filter_some, isOk_write hnew (hsystem s hnew)]
    rfl

theorem written?_eq_none (hclean :
    ((task.newText? t path).any fun s => (Writer.noLeaks s).isOk) = false) :
    task.written? t path = none := by
  rw [written?_eq_filter h hsystem, ← Option.isNone_iff_eq_none, ← Option.not_isSome,
    Option.isSome_filter, hclean, Bool.not_false]

theorem changes_eq_any :
    task.changes t path = (task.newText? t path).any fun s => (Writer.noLeaks s).isOk := by
  rw [changes, written?_eq_filter h hsystem, h, Bool.false_or, Option.isSome_filter]
  cases task.newText? t path with
  | none => rfl
  | some s => exact Bool.true_and _

theorem fails_eq_or : task.fails t path = (task.refuses t path ||
    (task.newText? t path).any fun s => !(Writer.noLeaks s).isOk) := by
  rw [fails, written?_eq_filter h hsystem, h]
  cases task.newText? t path with
  | none => rfl
  | some s => cases hleaks : (Writer.noLeaks s).isOk <;> simp [hleaks]

end Writes

end Task

/-! ## Runs -/

section Runs

variable [YamlReader]

/-- A file that both runs format alike has the same new text in both. -/
theorem newText?_of_formatsAlike {path : String}
    (htask : (taskOf t child optionsFile draws a).result = .ok task)
    (hasking : (taskOf t child asksFile asks { a with check := true }).result = .ok asking)
    (halike : FormatsAlike t child optionsFile draws asksFile asks a path) :
    asking.newText? t path = task.newText? t path := by
  have hrun : (taskOf t child asksFile asks { a with check := true }).result =
      .ok (task.inRun child asksFile asks { a with check := true }) := taskOf_inRun htask rfl
  rw [hrun] at hasking
  cases hasking
  have hformatted := halike task htask
  unfold Task.newText?
  rw [← hformatted]
  rfl

/-- A run that only asks, and one that writes, over distinct files that can all be read, if the
system refuses no write. The first changes nothing and reports the files with a new text. The second
writes the new texts, but for those that still hold a token, and leaves all else as it was. Files
that both format alike are rewritten if they are reported and their new text holds no token. -/
theorem run_check_agrees [ArgumentReader] {cwd : Path} {args checkArgs : List String}
    (hargs : ArgumentReader.read t cwd args = .run a) (hwrites : a.check = false)
    (hasks : ArgumentReader.read t cwd checkArgs = .run { a with check := true })
    (htask : (taskOf t child optionsFile draws a).result = .ok task)
    (hasking : (taskOf t child asksFile asks { a with check := true }).result = .ok asking)
    (hdistinct : (a.paths.map Path.resolve).Nodup)
    (htexts : ∀ path ∈ a.paths, ∃ s, t.readText path = .ok s)
    (hsystem : ∀ path ∈ a.paths, ∀ s, task.newText? t path = some s → ∀ cause place,
      (Writer.write Writer.noLeaks path s t).result ≠ .error (.file cause place)) :
    let asked := run t child asksFile cwd checkArgs asks
    let written := run t child optionsFile cwd args draws
    let isClean := fun s => (Writer.noLeaks s).isOk
    let reported := a.paths.filter fun path => (asking.newText? t path).isSome
    let rewritten := a.paths.filter fun path => (task.newText? t path).any isClean
    (asked.tree = t ∧
      asked.stdout = reported.map fun path => shown s!"Would reformat {path}") ∧
    ((∀ path ∈ rewritten, ∃ s, task.newText? t path = some s ∧
        written.tree.find? (Path.resolve path) = some (.file { content := Utf8.encode s })) ∧
      (∀ q ∉ rewritten.map Path.resolve, written.tree.find? q = t.find? q) ∧
      written.stdout = [s!"Formatted {rewritten.length} file(s)."]) ∧
    (asked.crash = none ∧
      asked.exitCode = if a.paths.any (asking.refuses t) || !reported.isEmpty then 1 else 0) ∧
    (written.crash = none ∧
      written.exitCode = if a.paths.any fun path =>
        task.refuses t path || (task.newText? t path).any fun s => !isClean s then 1 else 0) ∧
    ∀ path ∈ a.paths, FormatsAlike t child optionsFile draws asksFile asks a path →
      asking.newText? t path = task.newText? t path ∧
      (path ∈ rewritten ↔ path ∈ reported ∧ (asking.newText? t path).any isClean) := by
  intro asked written isClean reported rewritten
  have hcheck : task.check = false :=
    (congrArg Task.check (eq_inRun_of_taskOf htask)).trans hwrites
  have hchecking : asking.check = true := congrArg Task.check (eq_inRun_of_taskOf hasking)
  have hreached := State.reached_eq_self htexts
  obtain ⟨hcrash, hstdout, hexit⟩ := outcome_run hargs htask hdistinct htexts
  obtain ⟨hcrash', hstdout', hexit'⟩ := outcome_run hasks hasking hdistinct htexts
  have hrewritten : a.paths.filter (task.changes t) = rewritten :=
    List.filter_congr fun path hp => Task.changes_eq_any hcheck (hsystem path hp)
  have hreported : a.paths.filter (asking.changes t) = reported :=
    List.filter_congr fun path _ => Task.changes_of_check hchecking
  rw [hrewritten, hwrites] at hstdout hexit
  rw [hreported] at hstdout' hexit'
  refine ⟨⟨?_, hstdout'⟩, ⟨fun path hp => ?_, fun q hq => ?_, hstdout⟩, ⟨hcrash', ?_⟩,
    ⟨hcrash, ?_⟩, fun path hp halike => ?_⟩
  · exact (tree_run hasks hasking hdistinct).trans
      (List.foldl_fixed' (fun _ => Task.store_of_check hchecking t) _)
  · obtain ⟨hp, hclean⟩ := List.mem_filter.mp hp
    obtain ⟨s, hnew, hclean⟩ := (Option.any_eq_true _ _).mp hclean
    refine ⟨s, hnew, ?_⟩
    rw [find?_run hargs htask hdistinct hp, hreached, if_pos hp,
      Task.written?_eq_filter hcheck (hsystem path hp), hnew, Option.filter_some_pos hclean]
    rfl
  · by_cases hlisted : q ∈ a.paths.map Path.resolve
    · obtain ⟨path, hp, rfl⟩ := List.mem_map.mp hlisted
      have hclean : (task.newText? t path).any isClean = false := Bool.eq_false_iff.mpr fun h =>
        hq (List.mem_map_of_mem (List.mem_filter.mpr ⟨hp, h⟩))
      rw [find?_run hargs htask hdistinct hp, hreached, if_pos hp,
        Task.written?_eq_none hcheck (hsystem path hp) hclean]
      rfl
    · exact find?_run_of_not_mem hargs htask hdistinct (hreached.symm ▸ hlisted)
  · rw [hexit', Bool.true_and, List.any_congr rfl fun path => Task.fails_of_check hchecking]
  · have hfails : a.paths.any (task.fails t) = a.paths.any fun path =>
        task.refuses t path || (task.newText? t path).any fun s => !isClean s := by
      rw [Bool.eq_iff_iff, List.any_eq_true, List.any_eq_true]
      refine exists_congr fun path => and_congr_right fun hp => ?_
      rw [Task.fails_eq_or hcheck (hsystem path hp)]
    rw [hexit, hfails, Bool.false_and, Bool.or_false]
  · have hnew := newText?_of_formatsAlike htask hasking halike
    refine ⟨hnew, ?_⟩
    rw [List.mem_filter, List.mem_filter, hnew]
    cases task.newText? t path with
    | none => simp
    | some s => simp

end Runs

/-- A template with a new text, one whose new text holds a token, and a file that is no template.
The two runs draw other suffixes, and need none. -/
theorem run_check_agrees_token :
    let child : Engine.Child := fun call => .ok ⟨call.input.getD [], [], 0⟩
    let tag := "<twig:A b=\"1\" c=\"2\"/>".toList
    let token := "__TWIG_CS_X_0_aaaaaaaa__".toList
    let t : Tree := ⟨[(["p"], .directory),
      (["p", "a.twig"], .file { content := Utf8.encode tag }),
      (["p", "b.twig"], .file { content := Utf8.encode (tag ++ token) }),
      (["p", "c.txt"], .file { content := Utf8.encode tag })]⟩
    let asks : Draws := fun _ _ => .startingWith ["bbbbbbbb".toList]
    let asked := run t child "options.json" ["p"] ["--check", "a.twig", "b.twig", "c.txt"] asks
    let written := run t child "options.json" ["p"] ["a.twig", "b.twig", "c.txt"]
    asked.tree = t ∧ asked.stdout = ["Would reformat /p/a.twig", "Would reformat /p/b.twig"] ∧
      asked.exitCode = 1 ∧ written.stdout = ["Formatted 1 file(s)."] ∧ written.exitCode = 1 ∧
      (∀ q, q ≠ ["p", "a.twig"] → written.tree.find? q = t.find? q) ∧
      ∀ path ∈ ["/p/a.twig", "/p/b.twig", "/p/c.txt"],
        FormatsAlike t child "options.json" .counting "options.json" asks
          { paths := ["/p/a.twig", "/p/b.twig", "/p/c.txt"] } path := by
  intro child tag token t asks asked written
  let paths := ["/p/a.twig", "/p/b.twig", "/p/c.txt"]
  obtain ⟨task, asking, htask, hasking, hreported, hrefuses, hrewritten, hexit⟩ :
      ∃ task asking, (taskOf t child "options.json" .counting { paths := paths }).result =
        .ok task ∧
      (taskOf t child "options.json" asks { check := true, paths := paths }).result = .ok asking ∧
      (paths.filter fun path => (asking.newText? t path).isSome) = ["/p/a.twig", "/p/b.twig"] ∧
      paths.any (asking.refuses t) = false ∧
      (paths.filter fun path => (task.newText? t path).any fun s => (Writer.noLeaks s).isOk) =
        ["/p/a.twig"] ∧
      (paths.any fun path => task.refuses t path ||
        (task.newText? t path).any fun s => !(Writer.noLeaks s).isOk) = true :=
    ⟨_, _, rfl, rfl, by decide +kernel⟩
  have htexts : ∀ path ∈ paths, ∃ s, t.readText path = .ok s := by
    simp only [paths, List.forall_mem_cons]
    exact ⟨⟨tag, by decide +kernel⟩, ⟨tag ++ token, by decide +kernel⟩, ⟨tag, by decide +kernel⟩,
      fun _ h => absurd h List.not_mem_nil⟩
  have hshort : ∀ path ∈ paths, Writer.tooLong path = false := by decide +kernel
  have hargs : ArgumentReader.read t ["p"] ["a.twig", "b.twig", "c.txt"] =
      .run { paths := paths } := by
    decide +kernel
  have hasks : ArgumentReader.read t ["p"] ["--check", "a.twig", "b.twig", "c.txt"] =
      .run { check := true, paths := paths } := by
    decide +kernel
  obtain ⟨⟨htree, hout⟩, ⟨_, hrest, hout'⟩, ⟨_, hcode⟩, ⟨_, hcode'⟩, _⟩ :=
    run_check_agrees hargs rfl hasks htask hasking (by decide +kernel) htexts
      fun path hp s hnew => by
        obtain ⟨hpath, text, hr⟩ := Task.exists_of_newText? hnew
        exact Writer.result_write_ne_file hpath hr (hshort path hp) s
  rw [hreported] at hout hcode
  rw [hrewritten] at hrest hout'
  rw [hexit] at hcode'
  have halike : ∀ path ∈ paths, (task.inRun child "options.json" asks { paths := paths }).formatted
      t path = task.formatted t path := by
    cases htask
    decide +kernel
  refine ⟨htree, hout.trans (by decide +kernel), hcode.trans (by simp), hout', hcode',
    fun q hq => hrest q ?_, fun path hp task' htask' => ?_⟩
  · have hresolve : ["/p/a.twig"].map Path.resolve = [["p", "a.twig"]] := by decide +kernel
    rw [hresolve, List.mem_singleton]
    exact hq
  · cases htask.symm.trans htask'
    exact halike path hp

/-- The comment comes back in the wrong place if its token overlaps the text before it, which only
one of the two runs draws. So the first reports a file that the second leaves alone. -/
example :
    let child : Engine.Child := fun call => .ok ⟨call.input.getD [], [], 0⟩
    let text := "__TWIG_CS_COMMENT_0_aaaaaaaa\x7b# x #\x7d".toList
    let file : Node := .file { content := Utf8.encode text }
    let t : Tree := ⟨[(["p"], .directory), (["p", "a.twig"], file)]⟩
    let draws : Draws := fun _ _ => .startingWith ["bbbbbbbb".toList]
    (run t child "options.json" ["p"] ["--check", "a.twig"]).stdout = ["Would reformat /p/a.twig"] ∧
      (run t child "options.json" ["p"] ["a.twig"] draws).stdout = ["Formatted 0 file(s)."] := by
  decide +kernel

end TwigLayout.CommandLine
