import TwigLayout.Proofs.Run.Draws

/-!
# Files on their own

Each file of a run comes out as if it were the only one, if the run gets to it. It does not if a
file before it cannot be read as text: that fault belongs to one file and still ends the run
(`run_undecodable_first`). Where all files can be read, their order makes no difference. All this
compares runs that draw for themselves, and is said of files that they format alike.
-/

namespace TwigLayout.CommandLine

open Text

/-! ## Files that a run gets to -/

namespace State

variable {t : Tree} {path : String}

/-- A run gets to a file if that can be read, and so can all before it. -/
theorem mem_reached_iff {before : List String} (hb : path ∉ before) (after : List String) :
    path ∈ reached t (before ++ path :: after) ↔
      (before.all fun p => (t.readText p).isOk) = true ∧ (t.readText path).isOk = true := by
  unfold reached
  induction before with
  | nil =>
    rw [List.nil_append, List.takeWhile_cons]
    cases (t.readText path).isOk <;> simp
  | cons first before ih =>
    rw [List.mem_cons, not_or] at hb
    rw [List.cons_append, List.takeWhile_cons, List.all_cons]
    cases (t.readText first).isOk with
    | true => simpa [hb.1] using ih hb.2
    | false => simp

theorem mem_reached_singleton_iff : path ∈ reached t [path] ↔ (t.readText path).isOk = true := by
  have h : path ∈ reached t ([] ++ [path]) ↔ _ := mem_reached_iff List.not_mem_nil []
  simpa using h

end State

/-! ## Written texts -/

/-- A file that two runs format alike has the same text written to it. -/
theorem written?_of_formatsAlike [YamlReader] {t : Tree} {child : Engine.Child}
    {optionsFile otherFile : String} {draws others : Draws} {a : Arguments} {task : Task}
    {path : String} (htask : (taskOf t child optionsFile draws a).result = .ok task)
    (halike : FormatsAlike t child optionsFile draws otherFile others a path) :
    (task.inRun child otherFile others a).written? t path = task.written? t path := by
  have hcheck : (task.inRun child otherFile others a).check = task.check :=
    (congrArg Task.check (eq_inRun_of_taskOf htask)).symm
  unfold Task.written? Task.newText?
  rw [hcheck, halike task htask]

/-! ## Runs -/

section Run

variable [YamlReader] [ArgumentReader] {t : Tree} {child : Engine.Child}
  {optionsFile otherFile : String} {cwd : Path} {args : List String} {draws others : Draws}
  {a : Arguments} {task : Task} (hargs : ArgumentReader.read t cwd args = .run a)
  (htask : (taskOf t child optionsFile draws a).result = .ok task)
  (hdistinct : (a.paths.map Path.resolve).Nodup)

include hargs htask hdistinct

/-- A file in a run and in a run of its own. -/
theorem find?_run_alone {before after alone : List String} {path : String}
    (hpaths : a.paths = before ++ path :: after)
    (halone : ArgumentReader.read t cwd alone = .run { a with paths := [path] })
    (halike : FormatsAlike t child optionsFile draws otherFile others a path) :
    (run t child optionsFile cwd args draws).tree.find? (Path.resolve path) =
      if before.all fun p => (t.readText p).isOk then
        (run t child otherFile cwd alone others).tree.find? (Path.resolve path)
      else t.find? (Path.resolve path) := by
  have hp : path ∈ a.paths := by
    rw [hpaths]
    exact List.mem_append_right _ List.mem_cons_self
  have hb : path ∉ before := by
    have hnodup := List.Nodup.of_map _ hdistinct
    rw [hpaths, List.nodup_append] at hnodup
    exact fun hm => hnodup.2.2 path hm path List.mem_cons_self rfl
  have hother : (taskOf t child otherFile others { a with paths := [path] }).result =
      .ok (task.inRun child otherFile others a) := taskOf_inRun htask rfl
  have hreached := State.mem_reached_iff (t := t) hb after
  rw [find?_run hargs htask hdistinct hp,
    find?_run halone hother (List.nodup_singleton _) (List.mem_singleton.mpr rfl), hpaths,
    written?_of_formatsAlike htask halike]
  simp only [hreached, State.mem_reached_singleton_iff]
  cases before.all fun p => (t.readText p).isOk <;> simp

/-- Files that can all be read, in another order. -/
theorem find?_run_perm {order reordered : List String} (hperm : a.paths.Perm order)
    (hreordered : ArgumentReader.read t cwd reordered = .run { a with paths := order })
    (htexts : ∀ path ∈ a.paths, ∃ s, t.readText path = .ok s)
    (halike : ∀ path ∈ a.paths, FormatsAlike t child optionsFile draws otherFile others a path)
    (q : Path) : (run t child otherFile cwd reordered others).tree.find? q =
      (run t child optionsFile cwd args draws).tree.find? q := by
  have hdistinct' : (order.map Path.resolve).Nodup :=
    (hperm.map Path.resolve).nodup_iff.mp hdistinct
  have hother : (taskOf t child otherFile others { a with paths := order }).result =
      .ok (task.inRun child otherFile others a) := taskOf_inRun htask rfl
  have hreached := State.reached_eq_self htexts
  have hreached' : State.reached t order = order :=
    State.reached_eq_self fun path hp => htexts path (hperm.mem_iff.mpr hp)
  by_cases hq : q ∈ a.paths.map Path.resolve
  · obtain ⟨path, hp, rfl⟩ := List.mem_map.mp hq
    have hp' := hperm.mem_iff.mp hp
    rw [find?_run hargs htask hdistinct hp, find?_run hreordered hother hdistinct' hp', hreached,
      hreached', if_pos hp, if_pos hp', written?_of_formatsAlike htask (halike path hp)]
  · have hq' : q ∉ order.map Path.resolve := fun hm =>
      hq ((hperm.map Path.resolve).mem_iff.mpr hm)
    rw [find?_run_of_not_mem hargs htask hdistinct (hreached.symm ▸ hq),
      find?_run_of_not_mem hreordered hother hdistinct' (hreached'.symm ▸ hq')]

end Run

/-- Of distinct files, each holds after a run what it holds after a run of its own, if all files
before it can be read, and else what it held before. If all files can be read, their order makes no
difference to the tree. The runs are any two that format the file, or all of them, alike. -/
theorem run_separates [YamlReader] [ArgumentReader] {t : Tree} (child : Engine.Child)
    (optionsFile : String) (draws : Draws) {cwd : Path} {args : List String} {a : Arguments}
    (hargs : ArgumentReader.read t cwd args = .run a)
    (hdistinct : (a.paths.map Path.resolve).Nodup) (otherFile : String) (others : Draws) :
    (∀ before path after alone, a.paths = before ++ path :: after →
      ArgumentReader.read t cwd alone = .run { a with paths := [path] } →
      FormatsAlike t child optionsFile draws otherFile others a path →
      (run t child optionsFile cwd args draws).tree.find? (Path.resolve path) =
        if before.all fun p => (t.readText p).isOk then
          (run t child otherFile cwd alone others).tree.find? (Path.resolve path)
        else t.find? (Path.resolve path)) ∧
    ∀ order reordered, a.paths.Perm order →
      ArgumentReader.read t cwd reordered = .run { a with paths := order } →
      (∀ path ∈ a.paths, ∃ s, t.readText path = .ok s) →
      (∀ path ∈ a.paths, FormatsAlike t child optionsFile draws otherFile others a path) →
      ∀ q, (run t child otherFile cwd reordered others).tree.find? q =
        (run t child optionsFile cwd args draws).tree.find? q := by
  -- the task does not depend on the files
  cases htask : (taskOf t child optionsFile draws a).result with
  | error e =>
    have hother : ∀ paths, ∃ e,
        (taskOf t child otherFile others { a with paths := paths }).result = .error e :=
      fun paths => exists_taskOf_error htask rfl
    refine ⟨fun before path after alone _ halone _ => ?_,
      fun order reordered _ hreordered _ _ q => ?_⟩
    · obtain ⟨_, herror⟩ := hother [path]
      rw [tree_run_of_error hargs htask, tree_run_of_error halone herror, ite_self]
    · obtain ⟨_, herror⟩ := hother order
      rw [tree_run_of_error hargs htask, tree_run_of_error hreordered herror]
  | ok task =>
    refine ⟨fun before path after alone hpaths halone halike => ?_,
      fun order reordered hperm hreordered htexts halike q => ?_⟩
    · exact find?_run_alone hargs htask hdistinct hpaths halone halike
    · exact find?_run_perm hargs htask hdistinct hperm hreordered htexts halike q

/-- A template behind a file that is no text, before it, and together with another template. The
runs draw other suffixes, and the templates have nothing to hide. -/
theorem run_separates_undecodable :
    let child : Engine.Child := fun call => .ok ⟨call.input.getD [], [], 0⟩
    let tag := "<twig:A b=\"1\" c=\"2\"/>".toList
    let t : Tree := ⟨[(["p"], .directory), (["p", "bad.twig"], .file { content := ⟨#[0xFF]⟩ }),
      (["p", "good.twig"], .file { content := Utf8.encode tag }),
      (["p", "more.twig"], .file { content := Utf8.encode tag })]⟩
    let good : Path := ["p", "good.twig"]
    let others : Draws := fun _ _ => .startingWith ["bbbbbbbb".toList]
    (run t child "options.json" ["p"] ["good.twig", "bad.twig"]).tree.find? good =
        (run t child "options.json" ["p"] ["good.twig"] others).tree.find? good ∧
      (run t child "options.json" ["p"] ["bad.twig", "good.twig"]).tree.find? good =
        t.find? good ∧
      ∀ q, (run t child "options.json" ["p"] ["more.twig", "good.twig"] others).tree.find? q =
        (run t child "options.json" ["p"] ["good.twig", "more.twig"]).tree.find? q := by
  intro child tag t good others
  have hgood : Path.resolve "/p/good.twig" = good := by decide +kernel
  have halone : ArgumentReader.read t ["p"] ["good.twig"] =
      .run { paths := ["/p/good.twig"] } := by
    decide +kernel
  have hlast : ArgumentReader.read t ["p"] ["good.twig", "bad.twig"] =
      .run { paths := ["/p/good.twig", "/p/bad.twig"] } := by
    decide +kernel
  have hfirst : ArgumentReader.read t ["p"] ["bad.twig", "good.twig"] =
      .run { paths := ["/p/bad.twig", "/p/good.twig"] } := by
    decide +kernel
  have htwo : ArgumentReader.read t ["p"] ["good.twig", "more.twig"] =
      .run { paths := ["/p/good.twig", "/p/more.twig"] } := by
    decide +kernel
  have hturned : ArgumentReader.read t ["p"] ["more.twig", "good.twig"] =
      .run { paths := ["/p/more.twig", "/p/good.twig"] } := by
    decide +kernel
  have hreads : ∀ path ∈ ["/p/good.twig", "/p/more.twig"], t.readText path = .ok tag := by
    decide +kernel
  have hcomments : Comment.pieces .comment tag = tag.map .plain := by decide +kernel
  have halike : ∀ paths, ∀ path ∈ ["/p/good.twig", "/p/more.twig"],
      FormatsAlike t child "options.json" .counting "options.json" others { paths := paths }
        path := by
    intro paths path hp
    refine formatsAlike_of_hidesNothing _ _ fun task htask s hs => ?_
    cases (hreads path hp).symm.trans hs
    cases htask
    exact Pipeline.hidesNothing_of_eq hcomments (by decide +kernel)
  refine ⟨?_, ?_, ?_⟩
  · have h := (run_separates child "options.json" .counting hlast (by decide +kernel)
      "options.json" others).1 [] "/p/good.twig" ["/p/bad.twig"] ["good.twig"] rfl halone
      (halike _ _ (by decide))
    rw [hgood, List.all_nil, if_pos rfl] at h
    exact h
  · have h := (run_separates child "options.json" .counting hfirst (by decide +kernel)
      "options.json" others).1 ["/p/bad.twig"] "/p/good.twig" [] ["good.twig"] rfl halone
      (halike _ _ (by decide))
    rw [hgood, if_neg (by decide +kernel)] at h
    exact h
  · exact (run_separates child "options.json" .counting htwo (by decide +kernel)
      "options.json" others).2 _ _ (List.Perm.swap _ _ _) hturned
      (fun path hp => ⟨tag, hreads path hp⟩) (halike _)

/-- A template is not formatted if it comes behind a file that is no text. -/
theorem run_undecodable_first :
    let child : Engine.Child := fun call => .ok ⟨call.input.getD [], [], 0⟩
    let tag := "<twig:A b=\"1\" c=\"2\"/>".toList
    let t : Tree := ⟨[(["p"], .directory), (["p", "bad.twig"], .file { content := ⟨#[0xFF]⟩ }),
      (["p", "good.twig"], .file { content := Utf8.encode tag })]⟩
    Engine.probe {} child = .ok true ∧
      (["/p/bad.twig", "/p/good.twig"].map Path.resolve).Nodup ∧
      (run t child "options.json" ["p"] ["bad.twig", "good.twig"]).tree.readText "/p/good.twig" =
        .ok tag ∧
      (run t child "options.json" ["p"] ["good.twig"]).tree.readText "/p/good.twig" =
        .ok "<twig:A\n    b=\"1\"\n    c=\"2\"\n/>".toList ∧
      (run t child "options.json" ["p"] ["good.twig", "bad.twig"]).tree.readText "/p/good.twig" =
        .ok "<twig:A\n    b=\"1\"\n    c=\"2\"\n/>".toList := by
  intro child tag t
  refine ⟨by decide +kernel, by decide +kernel, by decide +kernel, by decide +kernel,
    by decide +kernel⟩

end TwigLayout.CommandLine
