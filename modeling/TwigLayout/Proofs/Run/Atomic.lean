import TwigLayout.Proofs.Placeholder.Leak
import TwigLayout.Proofs.Run.Write

/-!
# Writing a file as a whole or not at all

Wherever an attempt to write ends, the tree is the one before it but for directories on the way to
the target that were missing (`KeepsAt`). Making directories adds nothing else, one name after the
other (`keepsAt_makeDirectories`). The new file beside the target stands in a free place and is gone
again before anything else happens, so it leaves no trace, and what remains is one of two outcomes
(`write_cases`): a fault, or the target with its content. A text with a token in it comes to the
first of them (`noLeaks_of_occursIn`). Where nothing of the system's stands against the target
(`Writable`), every text that passes the check comes to the second (`result_write_iff`).
-/

namespace TwigLayout.Writer

open Text

variable {path : String} {t u v : Tree} {q : Path}

/-! ## Directories on the way -/

/-- A directory that the way to a written path leads through, before its last name. -/
def OnWay (path : String) (q : Path) : Prop :=
  ∃ above, above <+: (Path.names path).dropLast ∧ q = above.foldl Path.step []

/-- At `q` the second tree has what the first one has, or a directory on the way to the written path
where the first one has nothing. -/
def KeepsAt (path : String) (t u : Tree) (q : Path) : Prop :=
  u.find? q = t.find? q ∨ t.find? q = none ∧ u.find? q = some .directory ∧ OnWay path q

theorem KeepsAt.refl (path : String) (t : Tree) (q : Path) : KeepsAt path t t q := .inl rfl

theorem KeepsAt.trans (h : KeepsAt path t u q) (h' : KeepsAt path u v q) : KeepsAt path t v q := by
  rcases h with h | ⟨hnone, hdir, hway⟩
  · unfold KeepsAt at h' ⊢
    rwa [← h]
  · rcases h' with h' | ⟨hnone', _, _⟩
    · exact .inr ⟨hnone, h'.trans hdir, hway⟩
    · rw [hnone'] at hdir
      cases hdir

/-- No file is gained, lost or changed. -/
theorem KeepsAt.file?_eq (h : KeepsAt path t u q) : u.file? q = t.file? q := by
  rcases h with h | ⟨hnone, hdir, _⟩
  · rw [Tree.file?, Tree.file?, h]
  · rw [Tree.file?, Tree.file?, hnone, hdir]

theorem keepsAt_put_directory {p : Path} (hfree : t.find? p = none) (hp : OnWay path p) (q : Path) :
    KeepsAt path t (t.put p .directory) q := by
  by_cases hq : q = p
  · subst hq
    have hroot : q ≠ [] := by
      rintro rfl
      cases hfree
    exact .inr ⟨hfree, Tree.find?_put_self hroot _ t, hp⟩
  · exact .inl (Tree.find?_put_of_ne hq _ t)

/-- Making directories adds directories on the way. -/
theorem keepsAt_makeDirectories {above names : List String}
    (h : above ++ names <+: (Path.names path).dropLast) (t : Tree) (q : Path) :
    KeepsAt path t (makeDirectories path names (above.foldl Path.step []) t).tree q := by
  induction names generalizing above t with
  | nil => exact .refl path t q
  | cons name names ih =>
    -- the directory that this name leads to is on the way, and the rest goes on from there
    have hnext : above ++ [name] ++ names <+: (Path.names path).dropLast := by
      rwa [List.append_assoc, List.singleton_append]
    have hdir : Path.step (above.foldl Path.step []) name =
        (above ++ [name]).foldl Path.step [] := by
      rw [List.foldl_append, List.foldl_cons, List.foldl_nil]
    have hway : OnWay path ((above ++ [name]).foldl Path.step []) :=
      ⟨_, (List.prefix_append _ names).trans hnext, rfl⟩
    rw [makeDirectories, hdir]
    split
    · exact ih hnext t
    · exact .refl path t q
    · next hfree =>
      split
      · exact .refl path t q
      · exact (keepsAt_put_directory hfree hway q).trans (ih hnext _)

theorem result_makeDirectories {names : List String} {dir p : Path}
    (h : (makeDirectories path names dir t).result = .ok p) : p = names.foldl Path.step dir := by
  induction names generalizing dir t with
  | nil => exact (Except.ok.inj h).symm
  | cons name names ih =>
    rw [makeDirectories] at h
    split at h
    · exact ih h
    · cases h
    · split at h
      · cases h
      · exact ih h

/-! ## Outcomes -/

theorem replaceFile_cases (check : Check) (path : String) (dir : Path) (name : String)
    (content : Text) (t : Tree) :
    (∃ e, replaceFile check path dir name content t = ⟨t, .error e⟩) ∨
      check content = .ok () ∧ name ≠ ".." ∧ replaceFile check path dir name content t =
        ⟨t.put (Path.step dir name) (written content), .ok ()⟩ := by
  rw [replaceFile_eq]
  cases check content with
  | error e => exact .inl ⟨e, rfl⟩
  | ok _ =>
    cases hobstacle : obstacle? t name (Path.step dir name) with
    | some cause => exact .inl ⟨.file cause path, rfl⟩
    | none =>
      refine .inr ⟨rfl, ?_, rfl⟩
      rintro rfl
      rw [obstacle?, if_pos rfl] at hobstacle
      cases hobstacle

/-- What an attempt to write comes to. -/
theorem write_cases (check : Check) (path : String) (content : Text) (t : Tree) :
    ∃ u, (∀ q, KeepsAt path t u q) ∧
      ((∃ e, write check path content t = ⟨u, .error e⟩) ∨
        check content = .ok () ∧ Path.resolve path ≠ [] ∧ write check path content t =
          ⟨u.put (Path.resolve path) (written content), .ok ()⟩) := by
  rw [write]
  cases hlast : (Path.names path).getLast? with
  | none => exact ⟨t, .refl path t, .inl ⟨_, rfl⟩⟩
  | some name =>
    simp only
    split
    · exact ⟨t, .refl path t, .inl ⟨_, rfl⟩⟩
    split
    · exact ⟨t, .refl path t, .inl ⟨_, rfl⟩⟩
    have hkeeps : ∀ q, KeepsAt path t
        (makeDirectories path (Path.names path).dropLast [] t).tree q :=
      keepsAt_makeDirectories (List.prefix_rfl : [] ++ (Path.names path).dropLast <+: _) t
    have hdir := @result_makeDirectories path t (Path.names path).dropLast []
    split
    · next u e hmade =>
      rw [hmade] at hkeeps
      exact ⟨u, hkeeps, .inl ⟨e, rfl⟩⟩
    · next u dir hmade =>
      rw [hmade] at hkeeps hdir
      refine ⟨u, hkeeps, ?_⟩
      split
      · exact .inl ⟨_, rfl⟩
      · -- on success the last name is one that adds to the directory, so the target is no root
        have htarget : Path.step dir name = Path.resolve path := by
          have hnames := List.dropLast_append_getLast? name hlast
          rw [hdir rfl, Path.resolve, ← hnames, List.dropLast_concat, List.foldl_append,
            List.foldl_cons, List.foldl_nil]
        rcases replaceFile_cases check path dir name content u with ⟨e, he⟩ | ⟨hcheck, hname, he⟩
        · exact .inl ⟨e, he⟩
        · refine .inr ⟨hcheck, ?_, ?_⟩
          · rw [← htarget, Path.step, if_neg hname]
            exact List.append_ne_nil_of_right_ne_nil _ (List.cons_ne_nil _ _)
          · rw [he, htarget]

/-! ## Success -/

/-- The system takes a file at a written path. -/
structure Writable (path : String) (t : Tree) : Prop where
  nullFree : Path.hasNull (Path.names path) = false
  short : directoryTooLong (Path.names path) = false
  /-- The path ends with a name, to which the name of a new file can be added. -/
  named : ∃ name, (Path.names path).getLast? = some name ∧ name ≠ ".." ∧
    newFileTooLong (Path.names path) name = false
  /-- The directories on the way are there, or nothing is there and one can be made. -/
  way : ∀ above name, above ++ [name] <+: (Path.names path).dropLast →
    t.find? ((above ++ [name]).foldl Path.step []) = some .directory ∨
      t.find? ((above ++ [name]).foldl Path.step []) = none ∧
        name.utf8ByteSize ≤ Tree.nameBound
  /-- The target is no directory, and does not become one on the way. -/
  target : t.isDirectory (Path.resolve path) = false ∧ ¬ OnWay path (Path.resolve path)

/-- All the directories on the way are made, in a tree that may have some of them by now. -/
theorem makeDirectories_of_writable (h : Writable path t) {above names : List String}
    (hnames : above ++ names <+: (Path.names path).dropLast) (hu : ∀ q, KeepsAt path t u q) :
    ∃ v, makeDirectories path names (above.foldl Path.step []) u =
        ⟨v, .ok ((above ++ names).foldl Path.step [])⟩ ∧ ∀ q, KeepsAt path t v q := by
  induction names generalizing above u with
  | nil => exact ⟨u, by rw [makeDirectories, List.append_nil], hu⟩
  | cons name names ih =>
    have hnext : above ++ [name] ++ names <+: (Path.names path).dropLast := by
      rwa [List.append_assoc, List.singleton_append]
    have hdir : Path.step (above.foldl Path.step []) name =
        (above ++ [name]).foldl Path.step [] := by
      rw [List.foldl_append, List.foldl_cons, List.foldl_nil]
    have hprefix : above ++ [name] <+: (Path.names path).dropLast :=
      (List.prefix_append _ names).trans hnext
    rw [makeDirectories, hdir, List.append_cons above name names]
    cases hfind : u.find? ((above ++ [name]).foldl Path.step []) with
    | none =>
      -- nothing was there before either, so the name is short
      obtain ⟨hnone, hshort⟩ : t.find? ((above ++ [name]).foldl Path.step []) = none ∧
          name.utf8ByteSize ≤ Tree.nameBound := by
        rcases hu ((above ++ [name]).foldl Path.step []) with hsame | ⟨_, hmade, _⟩
        · rw [hfind] at hsame
          refine (h.way above name hprefix).resolve_left fun hd => ?_
          cases hsame.trans hd
        · cases hfind.symm.trans hmade
      simp only [if_neg (Nat.not_lt.mpr hshort)]
      exact ih hnext fun q =>
        (hu q).trans (keepsAt_put_directory hfind ⟨_, hprefix, rfl⟩ q)
    | some node =>
      have hdirectory : node = .directory := by
        rcases hu ((above ++ [name]).foldl Path.step []) with hsame | ⟨_, hmade, _⟩
        · rw [hfind] at hsame
          rcases h.way above name hprefix with hd | ⟨hnone, _⟩
          · cases hsame.trans hd
            rfl
          · cases hsame.trans hnone
        · cases hfind.symm.trans hmade
          rfl
      subst hdirectory
      exact ih hnext hu

/-- Where the system takes a file, writing does what the check says. -/
theorem write_of_writable (h : Writable path t) (check : Check) (content : Text) :
    ∃ u, (∀ q, KeepsAt path t u q) ∧ write check path content t =
      match check content with
      | .error e => ⟨u, .error e⟩
      | .ok () => ⟨u.put (Path.resolve path) (written content), .ok ()⟩ := by
  obtain ⟨name, hlast, hname, hshort⟩ := h.named
  obtain ⟨u, hmade, hu⟩ := makeDirectories_of_writable h
    (List.prefix_rfl : [] ++ (Path.names path).dropLast <+: _) (KeepsAt.refl path t)
  have htarget : Path.step ((Path.names path).dropLast.foldl Path.step []) name =
      Path.resolve path := by
    rw [Path.resolve, ← List.dropLast_append_getLast? name hlast, List.dropLast_concat,
      List.foldl_append, List.foldl_cons, List.foldl_nil]
  have hfree : obstacle? u name (Path.resolve path) = none := by
    have hdirectory : u.isDirectory (Path.resolve path) = false := by
      rcases hu (Path.resolve path) with hsame | ⟨_, _, hway⟩
      · rw [Tree.isDirectory, hsame]
        exact h.target.1
      · exact absurd hway h.target.2
    rw [obstacle?, if_neg hname, hdirectory]
    rfl
  refine ⟨u, hu, ?_⟩
  rw [List.nil_append, List.foldl_nil] at hmade
  rw [write, hlast]
  simp only [h.nullFree, h.short, hmade, hshort, Bool.false_eq_true, if_false]
  rw [replaceFile_eq]
  cases check content with
  | error e => rfl
  | ok _ => simp only [htarget, hfree]

/-- Where the system takes a file, writing succeeds with those contents that pass the check. -/
theorem result_write_iff (h : Writable path t) (check : Check) (content : Text) :
    (write check path content t).result = .ok () ↔ check content = .ok () := by
  obtain ⟨u, _, hwrite⟩ := write_of_writable h check content
  rw [hwrite]
  cases check content with
  | error e => exact iff_of_false nofun nofun
  | ok _ => exact iff_of_true rfl rfl

/-- A file in a directory that is not there, with a check of a caller's own: a text without tabs is
written, and one with a tab is not. -/
theorem result_write_new :
    (write noTabs "/new/a.twig" "<p></p>".toList .empty).result = .ok () ∧
      (write noTabs "/new/a.twig" "<p>\t</p>".toList .empty).result ≠ .ok () := by
  have hway : (Path.names "/new/a.twig").dropLast = ["new"] := by decide +kernel
  have hprefix : ∀ above, above <+: ["new"] → above = [] ∨ above = ["new"] := by
    intro above h
    rcases List.prefix_cons_iff.mp h with rfl | ⟨rest, rfl, hrest⟩
    · exact .inl rfl
    · exact .inr (congrArg _ (List.prefix_nil.mp hrest))
  have hwritable : Writable "/new/a.twig" .empty := by
    refine ⟨by decide +kernel, by decide +kernel, ⟨"a.twig", by decide +kernel⟩,
      fun above name h => ?_, by decide +kernel, ?_⟩
    · rw [hway] at h
      rcases hprefix _ h with he | he
      · simp at he
      · rw [he]
        refine .inr ⟨rfl, ?_⟩
        obtain ⟨_, hname⟩ := List.append_inj' (he.trans (List.nil_append _).symm) rfl
        cases hname
        decide +kernel
    · rintro ⟨above, h, he⟩
      rw [hway] at h
      rcases hprefix above h with rfl | rfl
      · exact absurd he (by decide +kernel)
      · exact absurd he (by decide +kernel)
  constructor
  · exact (result_write_iff hwritable noTabs _).mpr (by decide)
  · exact fun h => absurd ((result_write_iff hwritable noTabs _).mp h) (by decide)

/-! ## Atomicity -/

theorem noLeaks_of_occursIn {kind : Placeholder.Kind} {index : Nat} {suffix content : Text}
    (hs : Placeholder.IsSuffix suffix)
    (h : occursIn (Placeholder.Table.tokenOf kind.label index suffix) content = true) :
    noLeaks content ≠ .ok () := by
  unfold noLeaks
  split
  · next hleaks => exact absurd hleaks (Placeholder.leaks_ne_nil hs h)
  · intro hok
    cases hok

/-- Writing is atomic. Either it succeeds, and then the target holds the content and the rest of the
tree is kept, or it fails, and then all of the tree is kept. Kept means that nothing is added either
but missing directories on the way to the target, so no new file is left beside it. With the check
on, no content in which a token occurs is ever written, whatever the kind, the index and the suffix
of the token. -/
theorem write_atomic (validate : Bool) (path : String) (content : Text) (t : Tree) :
    let attempt := write (if validate then noLeaks else noCheck) path content t
    (attempt.result = .ok () ∧
        attempt.tree.find? (Path.resolve path) = some (.file { content := Utf8.encode content }) ∧
        (∀ q ≠ Path.resolve path, KeepsAt path t attempt.tree q) ∨
      (∃ e, attempt.result = .error e) ∧ ∀ q, KeepsAt path t attempt.tree q) ∧
    (validate = true → ∀ kind index suffix, Placeholder.IsSuffix suffix →
      occursIn (Placeholder.Table.tokenOf (Placeholder.Kind.label kind) index suffix) content →
      ∃ e, attempt.result = .error e) := by
  intro attempt
  obtain ⟨u, hu, ⟨e, he⟩ | ⟨hcheck, hroot, hok⟩⟩ :=
    write_cases (if validate then noLeaks else noCheck) path content t
  · have hattempt : attempt = ⟨u, .error e⟩ := he
    rw [hattempt]
    exact ⟨.inr ⟨⟨e, rfl⟩, hu⟩, fun _ _ _ _ _ _ => ⟨e, rfl⟩⟩
  · have hattempt : attempt = ⟨u.put (Path.resolve path) (written content), .ok ()⟩ := hok
    rw [hattempt]
    refine ⟨.inl ⟨rfl, Tree.find?_put_self hroot _ u, fun q hq => ?_⟩, ?_⟩
    · exact (hu q).trans (.inl (Tree.find?_put_of_ne hq _ u))
    · intro hvalidate kind index suffix hs hoccurs
      rw [hvalidate, if_pos rfl] at hcheck
      exact absurd hcheck (noLeaks_of_occursIn hs hoccurs)

/-- A text with a token in it, for a file in a directory that is not there: the text is refused. The
directory is there afterwards, and the files are what they were. -/
theorem write_atomic_leak :
    let content := "<p>__TWIG_CS_INLINE_12_a0b1c2d3__</p>".toList
    let t : Tree := ⟨[(["old.twig"], written "<p></p>".toList)]⟩
    let attempt := write noLeaks "/new/a.twig" content t
    (∃ e, attempt.result = .error e) ∧ (∀ q, attempt.tree.file? q = t.file? q) ∧
      attempt.tree.isDirectory ["new"] = true := by
  intro content t attempt
  obtain ⟨hcases, htoken⟩ := write_atomic true "/new/a.twig" content t
  have hs : Placeholder.IsSuffix "a0b1c2d3".toList := ⟨by decide, List.all_eq_true.mp (by decide)⟩
  obtain ⟨e, he⟩ := htoken rfl .inline 12 "a0b1c2d3".toList hs (by decide +kernel)
  rcases hcases with ⟨hok, _⟩ | ⟨_, hkeeps⟩
  · cases he.symm.trans hok
  · exact ⟨⟨e, he⟩, fun q => (hkeeps q).file?_eq, by decide +kernel⟩

end TwigLayout.Writer
