import Mathlib.Data.List.Nodup
import Mathlib.Data.List.Perm.Subperm
import TwigLayout.Proofs.Run.Tree
import TwigLayout.Proofs.Text.Runs

/-!
# Writing to files that are there

Of a template that can be read, writing changes nothing but its content, and that only if nothing
stands against it (`write_of_readText`): the directories above it are there, and the new file beside
it has a name that was free and is free again.
-/

namespace TwigLayout

open Text

/-! ## Reading -/

theorem Path.not_hasNull_names {s : String} (h : '\x00' ∉ s.toList) :
    Path.hasNull (Path.names s) = false := by
  rw [hasNull, List.any_eq_false]
  intro name hname
  obtain ⟨field, hfield, rfl⟩ := List.mem_map.mp (List.mem_filter.mp hname).1
  rw [List.contains_iff_mem, String.toList_ofList]
  exact fun hm => h ((infix_of_mem_splitOn (by simp) hfield).subset hm)

namespace Tree

variable {t : Tree} {p : Path}

theorem walk_cons_eq_ok {s name : String} {names : List String} {dir : Path}
    (h : t.walk s (name :: names) dir = .ok p) :
    t.find? dir = some .directory ∧ t.walk s names (Path.step dir name) = .ok p := by
  rw [walk] at h
  split at h
  · next hd =>
    split at h
    · cases h
    · exact ⟨hd, h⟩
  · cases h
  · cases h

theorem readBytes_eq_ok {s : String} {bytes : ByteArray} (h : t.readBytes s = .ok bytes) :
    '\x00' ∉ s.toList ∧ t.walk s (Path.names s) [] = .ok (Path.resolve s) ∧
      ∃ f, t.find? (Path.resolve s) = some (.file f) ∧ f.readable = true := by
  unfold readBytes at h
  by_cases hnull : s.toList.contains '\x00' = true
  · rw [if_pos hnull] at h
    cases h
  rw [if_neg hnull] at h
  by_cases hlong : pathBound ≤ s.utf8ByteSize
  · rw [if_pos hlong] at h
    cases h
  rw [if_neg hlong] at h
  obtain ⟨q, hq, h⟩ := bind_eq_ok.mp h
  have hres : q = Path.resolve s := eq_foldl_of_walk hq
  rw [hres] at hq h
  refine ⟨fun hm => hnull (List.contains_iff_mem.mpr hm), hq, ?_⟩
  split at h
  · next f hf =>
    split at h
    · next hreadable => exact ⟨f, hf, hreadable⟩
    · cases h
  · cases h
  · cases h

theorem readText_eq_ok {s : String} {text : Text} (h : t.readText s = .ok text) :
    ∃ bytes, t.readBytes s = .ok bytes := by
  obtain ⟨bytes, hb, _⟩ := bind_eq_ok.mp h
  exact ⟨bytes, hb⟩

/-! ## Free names -/

theorem mem_nodes_of_find? {node : Node} (hp : p ≠ []) (h : t.find? p = some node) :
    p ∈ t.nodes.map (·.1) := by
  rw [find?, if_neg hp] at h
  obtain ⟨n, hn, _⟩ := Option.map_eq_some_iff.mp h
  have heq : n.1 = p := by simpa using List.find?_some hn
  exact List.mem_map.mpr ⟨n, List.mem_of_find?_eq_some hn, heq⟩

/-- A node in a free place, and taken away again. -/
theorem erase_put (hp : p ≠ []) (h : t.find? p = none) (node : Node) :
    (t.put p node).erase p = t := by
  rw [find?, if_neg hp, Option.map_eq_none_iff] at h
  have hne : ∀ n ∈ t.nodes, n.1 ≠ p := fun n hn he => by
    simpa [he] using List.find?_eq_none.mp h n hn
  have hset : ∀ nodes : List (Path × Node), (∀ n ∈ nodes, n.1 ≠ p) →
      (setNode p node nodes).filter (fun n => n.1 != p) = nodes := by
    intro nodes hnodes
    induction nodes with
    | nil => simp [setNode]
    | cons n nodes ih =>
      obtain ⟨hn, hnodes⟩ := List.forall_mem_cons.mp hnodes
      rw [setNode, if_neg hn, List.filter_cons_of_pos (by simpa using hn), ih hnodes]
  exact congrArg Tree.mk (hset t.nodes hne)

end Tree

/-! ## Writing -/

namespace Writer

variable {t : Tree}

theorem numbered_injective (name : String) :
    Function.Injective fun n : Nat => s!".{name}.{n}.tmp" := by
  intro m n h
  have hlists := congrArg String.toList h
  simp only [String.toList_append, List.append_assoc, List.append_cancel_left_eq] at hlists
  have hdigits := List.append_cancel_right hlists
  have hnumbers := congrArg (fun digits => Nat.ofDigitChars 10 digits 0) hdigits
  simpa [Nat.toString_eq_ofList_toDigits] using hnumbers

/-- A new file for a target is not there yet: there are more names for it than nodes. -/
theorem find?_newName (t : Tree) (dir : Path) (name : String) :
    t.find? (dir ++ [newName t dir name]) = none := by
  unfold newName
  cases hf : ((List.range (t.nodes.length + 1)).map fun n => s!".{name}.{n}.tmp").find? fun n =>
      (t.find? (dir ++ [n])).isNone with
  | some n =>
    have hn := List.find?_some hf
    rw [Option.isNone_iff_eq_none] at hn
    simpa only [hf, Option.getD_some] using hn
  | none =>
    have htaken := List.find?_eq_none.mp hf
    have hpaths : ((List.range (t.nodes.length + 1)).map fun n =>
        dir ++ [s!".{name}.{n}.tmp"]).Nodup := by
      refine List.Nodup.map (fun m n h => numbered_injective name ?_) List.nodup_range
      simpa using h
    have hsub : ((List.range (t.nodes.length + 1)).map fun n => dir ++ [s!".{name}.{n}.tmp"]) ⊆
        t.nodes.map (·.1) := by
      intro p hp
      obtain ⟨n, hn, rfl⟩ := List.mem_map.mp hp
      have hsome := htaken _ (List.mem_map.mpr ⟨n, hn, rfl⟩)
      rw [Option.isNone_iff_eq_none] at hsome
      obtain ⟨node, hnode⟩ := Option.ne_none_iff_exists'.mp hsome
      exact Tree.mem_nodes_of_find? (by simp) hnode
    have hlen := (List.subperm_of_subset hpaths hsub).length_le
    rw [List.length_map, List.length_map, List.length_range] at hlen
    omega

/-- The node of a written file. -/
def written (content : Text) : Node := .file { content := Utf8.encode content }

/-- The new file beside the target leaves no trace, whatever comes of it. -/
theorem replaceFile_eq (check : Check) (path : String) (dir : Path) (name : String)
    (content : Text) (t : Tree) :
    replaceFile check path dir name content t =
      match check content with
      | .error e => ⟨t, .error e⟩
      | .ok () =>
        match obstacle? t name (Path.step dir name) with
        | some cause => ⟨t, .error (.file cause path)⟩
        | none => ⟨t.put (Path.step dir name) (written content), .ok ()⟩ := by
  have hfree := Tree.erase_put (by simp) (find?_newName t dir name) (written content)
  unfold written at hfree
  unfold replaceFile written
  cases check content with
  | error e => simp only [hfree]
  | ok _ =>
    cases hobstacle : obstacle? t name (Path.step dir name) with
    | some cause => simp only [hfree, hobstacle]
    | none => simp only [hfree, hobstacle]

/-- The directories above a file that is there are there. -/
theorem makeDirectories_of_walk {path s : String} {names : List String} {name : String}
    {dir p : Path} (h : t.walk s (names ++ [name]) dir = .ok p) :
    makeDirectories path names dir t = ⟨t, .ok (names.foldl Path.step dir)⟩ := by
  induction names generalizing dir with
  | nil => rfl
  | cons n names ih =>
    -- the next name is looked up in the directory that this one leads to
    obtain ⟨m, more, hm⟩ := List.exists_cons_of_ne_nil (show names ++ [name] ≠ [] by simp)
    rw [List.cons_append] at h
    have hnext := (Tree.walk_cons_eq_ok h).2
    have hdir := Tree.walk_cons_eq_ok (hm ▸ hnext)
    rw [makeDirectories, hdir.1]
    exact ih hnext

/-- Whether the system takes no new file for the target at a written path. -/
def tooLong (path : String) : Bool :=
  directoryTooLong (Path.names path) ||
    newFileTooLong (Path.names path) (Path.resolve path).name

/-- What writing to a template that can be read does. -/
theorem write_of_readText {path : String} (hpath : IsTemplateName path) {text : Text}
    (h : t.readText path = .ok text) (check : Check) (s : Text) :
    write check path s t =
      if tooLong path then ⟨t, .error (.file .nameTooLong path)⟩
      else
        match check s with
        | .error e => ⟨t, .error e⟩
        | .ok () => ⟨t.put (Path.resolve path) (.file { content := Utf8.encode s }), .ok ()⟩ := by
  obtain ⟨bytes, hb⟩ := Tree.readText_eq_ok h
  obtain ⟨hnull, hwalk, f, hf, _⟩ := Tree.readBytes_eq_ok hb
  obtain ⟨dir, name, hnames, hname⟩ := Path.exists_names_eq hpath
  have hresolve := Path.resolve_eq_concat hnames hname
  have hnames' := Path.not_hasNull_names hnull
  have htarget : Path.step (dir.foldl Path.step []) name = Path.resolve path := by
    rw [hresolve, Path.step_eq_concat hname]
  have hlast : (Path.resolve path).name = name := by
    rw [hresolve, Path.name, List.getLast?_concat, Option.getD_some]
  have hobstacle : obstacle? t name (Path.resolve path) = none := by
    rw [obstacle?, if_neg (hname.ne _ (by decide)), Tree.isDirectory, hf]
    rfl
  rw [hnames] at hwalk hnames'
  have hdirs : makeDirectories path dir [] t = ⟨t, .ok (dir.foldl Path.step [])⟩ :=
    makeDirectories_of_walk hwalk
  unfold write tooLong
  simp only [hnames, List.getLast?_concat, List.dropLast_concat, hnames', hdirs, hlast,
    Bool.false_eq_true, if_false]
  cases directoryTooLong (dir ++ [name]) with
  | true => rfl
  | false =>
    cases newFileTooLong (dir ++ [name]) name with
    | true => rfl
    | false =>
      simp only [Bool.or_self, Bool.false_eq_true, if_false]
      rw [replaceFile_eq, htarget, hobstacle]
      rfl

/-- Of a template with a short name, all writes reach the check. -/
theorem result_write_ne_file {path : String} (hpath : IsTemplateName path) {text : Text}
    (h : t.readText path = .ok text) (hshort : tooLong path = false) (s : Text)
    (cause : FileFault) (place : String) :
    (write noLeaks path s t).result ≠ .error (.file cause place) := by
  rw [write_of_readText hpath h, hshort]
  unfold noLeaks
  cases Placeholder.leaks s with
  | nil => simp
  | cons token tokens => simp

end Writer

end TwigLayout
