import TwigLayout.Proofs.External.Globs
import TwigLayout.Proofs.External.Options
import TwigLayout.Proofs.Lookup

/-!
# The options of a project

What a resolution gives, said without the search and without the order in which options are set:

1. `firstFile_eq_find?`: the file that is used is the first of those to be searched that is there
   and holds options (`isUsed`).
2. `valueAt_optionsOf`: of its content and the clauses of its overrides, the option for a key is
   that of the last clause for the file that has the key, and that of the content if no clause has
   it (`optionFor`).
3. `resolve_eq_optionFor`: a resolution gives these options, and the same ones for every tree that
   has the same in the directories that are searched up to the file that is used.

The paths have no null character, the system can look up the files that the search comes to
(`Searchable`), and an empty text for the exclusions is no glob (`WritesExclusion`). None of this
can be left out, by `resolve_ne_reference`.
-/

namespace TwigLayout.ProjectOptions

open Text

/-! ## Clauses -/

/-- A value that writes globs: one of them, or a list. -/
inductive WritesGlobs : Value → List String → Prop
  | one (glob : String) : WritesGlobs (.str glob) [glob]
  | many (globs : List String) : WritesGlobs (.list (globs.map .str)) globs

/-- A value that writes the globs of an exclusion. An empty text writes none. -/
inductive WritesExclusion : Value → List String → Prop
  | empty : WritesExclusion (.str "") []
  | globs {v : Value} {globs : List String} : WritesGlobs v globs → v ≠ .str "" →
      WritesExclusion v globs

/-- What an override says: the options for the files that globs stand for, but for those that other
globs exclude. -/
structure Clause where
  files : List String
  excluded : List String
  options : Entries
  distinct : options.Distinct

/-- Whether a clause of an options file in a directory is for a file. -/
def Clause.covers (clause : Clause) (dir file : Path) : Bool :=
  (clause.files.any fun glob => globFits file (some dir) glob.toList) &&
    !clause.excluded.any fun glob => globFits file (some dir) glob.toList

/-- An override that writes a clause. What it leaves out is empty. -/
structure Clause.IsWritten (clause : Clause) (override : Entries) : Prop where
  files : WritesGlobs (Override.files override) clause.files
  excluded : WritesExclusion (Override.excluded override) clause.excluded
  options : Override.options override = .map clause.options

/-- The overrides of an options file write clauses, in their order. -/
def WritesClauses (content : Entries) (clauses : List Clause) : Prop :=
  ∃ overrides : List Entries, overridesOf content = .list (overrides.map .map) ∧
    List.Forall₂ Clause.IsWritten clauses overrides

/-- The option for a key: the last clause for the file that has the key counts, and before all
clauses what the file says outside of its overrides. -/
def optionFor (content : Entries) (clauses : List Clause) (dir file : Path) (key : Value) :
    Option Value :=
  (clauses.reverse.findSome? fun clause =>
    if clause.covers dir file then clause.options.valueAt key else none).or
    (if key = .str "overrides" then none else content.valueAt key)

section Clauses

variable {dir file : Path} {clause : Clause} {override : Entries}

theorem globsFit_of_writes (hnull : file.hasNull = false) {v : Value} {globs : List String}
    (h : WritesGlobs v globs) :
    globsFit v file (some dir) =
      .ok (globs.any fun glob => globFits file (some dir) glob.toList) := by
  cases h with
  | one glob =>
    rw [globsFit_str hnull, List.any_cons, List.any_nil, Bool.or_false]
  | many => exact globsFit_list hnull globs

/-- An exclusion is looked at only if it is not empty, and an empty one excludes nothing. -/
theorem globsFit_of_writesExclusion (dir : Path) (hnull : file.hasNull = false) {v : Value}
    {globs : List String} (h : WritesExclusion v globs) :
    (if v.isTrue then globsFit v file (some dir) else .ok false) =
      .ok (globs.any fun glob => globFits file (some dir) glob.toList) := by
  cases h with
  | empty => rfl
  | globs hglobs hne =>
    rw [globsFit_of_writes hnull hglobs]
    cases hglobs with
    | one glob =>
      have htrue : (Value.str glob).isTrue = true := bne_iff_ne.mpr fun he => hne (he ▸ rfl)
      rw [if_pos htrue]
    | many =>
      cases globs with
      | nil => rfl
      | cons glob globs => rfl

theorem Clause.IsWritten.applies_eq (h : clause.IsWritten override) (hnull : file.hasNull = false) :
    Override.applies override file dir = .ok (clause.covers dir file) := by
  have hexcluded := globsFit_of_writesExclusion dir hnull h.excluded
  have happlies : Override.applies override file dir =
      (globsFit (Override.files override) file (some dir) >>= fun fits =>
        if fits then
          if (Override.excluded override).isTrue then
            globsFit (Override.excluded override) file (some dir) >>= fun out => .ok !out
          else .ok true
        else .ok false) := rfl
  rw [happlies, globsFit_of_writes hnull h.files, covers]
  cases clause.files.any fun glob => globFits file (some dir) glob.toList with
  | false => rfl
  | true =>
    cases hany : (Override.excluded override).isTrue with
    | false =>
      rw [hany, if_neg Bool.false_ne_true] at hexcluded
      rw [← Except.ok.inj hexcluded]
      rfl
    | true =>
      rw [hany, if_pos rfl] at hexcluded
      rw [hexcluded]
      rfl

theorem applyOverride_of_isWritten (h : clause.IsWritten override) (hnull : file.hasNull = false)
    (options : Entries) :
    applyOverride file dir options (.map override) =
      .ok (if clause.covers dir file then options.setAll clause.options else options) := by
  have happly : applyOverride file dir options (.map override) =
      (Override.applies override file dir >>= fun fits =>
        if fits then setOptions options (Override.options override) else .ok options) := rfl
  rw [happly, h.applies_eq hnull, h.options]
  cases clause.covers dir file <;> rfl

/-- One clause after the other sets its options, so the last one for a key counts. -/
theorem valueAt_foldlM {clauses : List Clause} {overrides : List Entries}
    (h : List.Forall₂ Clause.IsWritten clauses overrides) (dir : Path)
    (hnull : file.hasNull = false) (options : Entries) :
    ∃ result, (overrides.map .map).foldlM (applyOverride file dir) options = .ok result ∧
      ∀ key, result.valueAt key = (clauses.reverse.findSome? fun clause =>
        if clause.covers dir file then clause.options.valueAt key else none).or
          (options.valueAt key) := by
  induction h generalizing options with
  | nil => exact ⟨options, rfl, fun key => rfl⟩
  | @cons clause override clauses overrides hfirst _ ih =>
    obtain ⟨result, hresult, hvalue⟩ :=
      ih (if clause.covers dir file then options.setAll clause.options else options)
    refine ⟨result, ?_, fun key => ?_⟩
    · rw [List.map_cons, List.foldlM_cons, applyOverride_of_isWritten hfirst hnull]
      exact hresult
    · have hoptions : Entries.valueAt
          (if clause.covers dir file then options.setAll clause.options else options) key =
          (if clause.covers dir file then clause.options.valueAt key else none).or
            (options.valueAt key) := by
        split
        · exact Entries.valueAt_setAll clause.distinct options key
        · rfl
      rw [hvalue, hoptions, List.reverse_cons, List.findSome?_append, List.findSome?_singleton,
        Option.or_assoc]

/-- The options of a file are those that its clauses and its content give. -/
theorem valueAt_optionsOf {content : Entries} {clauses : List Clause}
    (h : WritesClauses content clauses) (hnull : file.hasNull = false) :
    ∃ options, optionsOf content dir (some file) = .ok options ∧
      ∀ key, options.valueAt key = optionFor content clauses dir file key := by
  obtain ⟨overrides, hwritten, hclauses⟩ := h
  obtain ⟨options, hoptions, hvalue⟩ :=
    valueAt_foldlM hclauses dir hnull (content.erase "overrides")
  refine ⟨options, ?_, fun key => ?_⟩
  · have hof : optionsOf content dir (some file) =
        ((overridesOf content).items >>= fun overrides =>
          overrides.foldlM (applyOverride file dir) (content.erase "overrides")) := rfl
    rw [hof, hwritten]
    exact hoptions
  · rw [hvalue, Entries.valueAt_erase, optionFor]

end Clauses

/-! ## The file that is used -/

/-- Whether a file is used if the search comes to it: a package file has to hold options. What the
options files hold is given by their paths. -/
def isUsed (t : Tree) (content : Path → Entries) (p : Path) : Bool :=
  t.isFile p && (p.name != packageFile || (content p).contains packageKey)

/-- The options in a file. A package file has them under a key, where they may be no mapping. -/
def optionsIn (content : Path → Entries) (p : Path) : Option Entries :=
  if p.name = packageFile then
    match (content p).get? packageKey with
    | some (.map options) => some options
    | _ => none
  else some (content p)

/-- The file that is used for a directory: the first of those to be searched. -/
def usedFile (t : Tree) (content : Path → Entries) (dir : Path) : Option (Path × Format) :=
  (searched dir).find? fun c => isUsed t content c.1

/-- The system can look up every file that the search of a directory comes to. -/
def Searchable [YamlReader] (t : Tree) (dir : Path) : Prop :=
  ∀ c, LookedAt t (searched dir) c → t.nameTooLong c.1 = false

/-- The files that the search of a directory comes to hold what is given, if they are there. -/
def Holds [YamlReader] (t : Tree) (dir : Path) (content : Path → Entries) : Prop :=
  ∀ c, LookedAt t (searched dir) c → t.isFile c.1 = true → load t c.1 c.2 = .ok (content c.1)

section Search

variable {t u : Tree} {content : Path → Entries} {p dir : Path} {format : Format}
  {files : List (Path × Format)} {c d : Path × Format}

theorem holdsOptions_eq_isUsed [YamlReader] (hlong : t.nameTooLong p = false)
    (hload : t.isFile p = true → load t p format = .ok (content p)) :
    holdsOptions t p format = .ok (isUsed t content p) := by
  unfold isUsed
  cases hfile : t.isFile p with
  | false => exact holdsOptions_of_not_isFile hlong hfile
  | true =>
    rw [holdsOptions_of_isFile hlong hfile, hload hfile, Bool.true_and]
    by_cases hname : p.name = packageFile
    · rw [if_pos hname, hname, bne_self_eq_false, Bool.false_or]
      rfl
    · rw [if_neg hname, bne_iff_ne.mpr hname, Bool.true_or]

/-- The search finds the first file that is used. -/
theorem firstFile_eq_find? [YamlReader]
    (hlong : ∀ c, LookedAt t files c → t.nameTooLong c.1 = false)
    (hload : ∀ c, LookedAt t files c → t.isFile c.1 = true →
      load t c.1 c.2 = .ok (content c.1)) :
    firstFile t files = .ok (files.find? fun c => isUsed t content c.1) := by
  induction files with
  | nil => rfl
  | cons d files ih =>
    have hd := holdsOptions_eq_isUsed (hlong d .head) (hload d .head)
    unfold firstFile
    rw [hd, List.find?_cons]
    cases hused : isUsed t content d.1 with
    | true => rfl
    | false =>
      rw [hused] at hd
      exact ih (fun c hc => hlong c (.tail hd hc)) fun c hc => hload c (.tail hd hc)

theorem contentOf_eq_optionsIn [YamlReader] (hload : load t p format = .ok (content p))
    (hused : isUsed t content p = true) :
    contentOf t p format = .ok (optionsIn content p) := by
  rw [isUsed, Bool.and_eq_true, Bool.or_eq_true, bne_iff_ne] at hused
  unfold contentOf optionsIn
  refine bind_eq_ok.mpr ⟨content p, hload, ?_⟩
  by_cases hname : p.name = packageFile
  · obtain ⟨v, hv⟩ := Entries.exists_get?_of_contains (hused.2.resolve_left (not_not.mpr hname))
    rw [if_pos hname, if_pos hname, hv]
    cases v <;> rfl
  · rw [if_neg hname, if_neg hname]
    rfl

/-! ## What the search depends on -/

/-- A file with a text in it that is a mapping is loaded. -/
theorem load_of_parse [YamlReader] {s : Text} {entries : Entries}
    (hfile : t.file? p = some { content := Utf8.encode s })
    (hparse : format.parse (unifyNewlines s) = .ok (.map entries)) :
    load t p format = .ok entries := by
  rw [load, hfile]
  refine bind_eq_ok.mpr ⟨s, Tree.decode_encode s, bind_eq_ok.mpr ⟨.map entries, ?_, rfl⟩⟩
  rw [hparse]
  rfl

theorem load_congr [YamlReader] (h : u.find? p = t.find? p) :
    load u p format = load t p format := by
  unfold load Tree.file?
  rw [h]

theorem contentOf_congr [YamlReader] (h : u.find? p = t.find? p) :
    contentOf u p format = contentOf t p format := by
  unfold contentOf
  rw [load_congr h]

/-- The search goes the same way in two trees that are the same where it looks. -/
theorem firstFile_congr [YamlReader] (ht : ∀ c, LookedAt t files c → t.nameTooLong c.1 = false)
    (hu : ∀ c, LookedAt u files c → u.nameTooLong c.1 = false)
    (h : ∀ c, LookedAt t files c → u.find? c.1 = t.find? c.1) :
    firstFile u files = firstFile t files := by
  induction files with
  | nil => rfl
  | cons d files ih =>
    have hholds : holdsOptions u d.1 d.2 = holdsOptions t d.1 d.2 := by
      unfold holdsOptions Tree.isFile Tree.file?
      rw [ht d .head, hu d .head, h d .head, load_congr (h d .head)]
    unfold firstFile
    rw [hholds]
    cases hd : holdsOptions t d.1 d.2 with
    | error e => rfl
    | ok holds =>
      cases holds with
      | true => rfl
      | false =>
        exact ih (fun c hc => ht c (.tail hd hc)) (fun c hc => hu c (.tail (hholds.trans hd) hc))
          fun c hc => h c (.tail hd hc)

/-- A directory and those above it come in the order in which they lie in one another. -/
theorem pairwise_ancestors (dir : Path) :
    dir.ancestors.Pairwise fun folder above => above <+: folder := by
  rw [Path.ancestors, List.pairwise_map]
  exact List.pairwise_lt_range.imp fun h => List.take_prefix_take_left (by omega)

theorem prefix_of_mem_ancestors {folder : Path} (h : folder ∈ dir.ancestors) : folder <+: dir := by
  obtain ⟨n, _, rfl⟩ := List.mem_map.mp h
  exact List.take_prefix _ _

theorem mem_searched_iff :
    c ∈ searched dir ↔ ∃ folder ∈ dir.ancestors, ∃ candidate ∈ candidates,
      (folder ++ [candidate.1], candidate.2) = c := by
  rw [searched, List.mem_flatMap]
  exact exists_congr fun folder => and_congr_right fun _ => List.mem_map

/-- The directories of the files to be searched come in the same order. -/
theorem pairwise_searched (dir : Path) :
    (searched dir).Pairwise fun c d => d.1.dropLast <+: c.1.dropLast := by
  have hfolder {folder : Path} {c : Path × Format}
      (hc : c ∈ candidates.map fun candidate => (folder ++ [candidate.1], candidate.2)) :
      c.1.dropLast = folder := by
    obtain ⟨candidate, _, rfl⟩ := List.mem_map.mp hc
    exact List.dropLast_concat
  rw [searched, List.pairwise_flatMap]
  refine ⟨fun folder _ => ?_, (pairwise_ancestors dir).imp fun h c hc d hd => ?_⟩
  · refine List.Pairwise.imp_of_mem (fun {c d} hc hd _ => ?_)
      (List.pairwise_of_forall fun _ _ => trivial)
    have he : d.1.dropLast = c.1.dropLast := (hfolder hd).trans (hfolder hc).symm
    exact he ▸ List.prefix_refl d.1.dropLast
  · rw [hfolder hc, hfolder hd]
    exact h

/-- No file that is looked at comes after the one that is found. -/
theorem lookedAt_of_firstFile [YamlReader] {R : Path × Format → Path × Format → Prop}
    (hrefl : ∀ c, R c c) (hpairwise : files.Pairwise R) (hfound : firstFile t files = .ok (some d))
    (hc : LookedAt t files c) : R c d := by
  obtain ⟨hd, htrue⟩ := firstFile_eq_some_iff.mp hfound
  clear hfound
  induction hc with
  | head =>
    rcases List.mem_cons.mp hd.mem with rfl | hmem
    · exact hrefl _
    · exact (List.pairwise_cons.mp hpairwise).1 d hmem
  | tail hfalse _ ih =>
    cases hd with
    | head => cases htrue.symm.trans hfalse
    | tail _ hd => exact ih (List.pairwise_cons.mp hpairwise).2 hd

/-- Two trees have the same in every directory from `dir` up to `top`. -/
def AgreeBetween (t u : Tree) (dir top : Path) : Prop :=
  ∀ folder, folder <+: dir → top <+: folder → ∀ name, u.find? (folder ++ [name]) =
    t.find? (folder ++ [name])

/-- The directory of the file that a search finds, or the root if it finds none. -/
def topOf (found : Option (Path × Format)) : Path := (found.map (·.1.dropLast)).getD []

theorem AgreeBetween.find?_eq [YamlReader] {found : Option (Path × Format)}
    (h : AgreeBetween t u dir (topOf found)) (hfound : firstFile t (searched dir) = .ok found)
    (hc : LookedAt t (searched dir) c) : u.find? c.1 = t.find? c.1 := by
  obtain ⟨folder, hfolder, candidate, _, rfl⟩ := mem_searched_iff.mp hc.mem
  refine h folder (prefix_of_mem_ancestors hfolder) ?_ candidate.1
  cases found with
  | none => exact List.nil_prefix
  | some d =>
    have hprefix := lookedAt_of_firstFile (fun c => List.prefix_refl c.1.dropLast)
      (pairwise_searched dir) hfound hc
    rwa [List.dropLast_concat] at hprefix

end Search

/-! ## Resolution -/

variable {t u : Tree} {directory file : String}

theorem result_resolve [YamlReader] (t : Tree) (directory : String) (hfile : file ≠ "") :
    (resolve t directory (some file)).result =
      findFile t (Path.resolve directory) >>= fun found =>
        match found with
        | none => .ok []
        | some c => contentOf t c.1 c.2 >>= fun content =>
          match content with
          | none => .ok []
          | some content => optionsOf content c.1.dropLast (some (Path.resolve file)) := by
  have hsome : ((some file).filter (· != "")).map Path.resolve = some (Path.resolve file) := by
    rw [Option.filter_some, if_pos (by simpa using hfile), Option.map_some]
  unfold resolve
  rw [Logged.result_bind]
  refine congrArg (findFile t (Path.resolve directory) >>= ·) (funext fun found => ?_)
  cases found with
  | none => rfl
  | some c =>
    dsimp only
    rw [Logged.result_bind]
    refine congrArg (contentOf t c.1 c.2 >>= ·) (funext fun content => ?_)
    cases content with
    | none => rfl
    | some content =>
      dsimp only
      rw [Logged.result_bind, ← hsome]
      rfl

/-- Trees that have the same in the directories up to that of the file that is found give the same
options. -/
theorem result_resolve_congr [YamlReader] (hdirectory : (Path.resolve directory).hasNull = false)
    (hfile : file ≠ "") (ht : Searchable t (Path.resolve directory))
    (hu : Searchable u (Path.resolve directory)) {found : Option (Path × Format)}
    (hfound : firstFile t (searched (Path.resolve directory)) = .ok found)
    (h : AgreeBetween t u (Path.resolve directory) (topOf found)) :
    (resolve u directory (some file)).result = (resolve t directory (some file)).result := by
  have hsame : firstFile u (searched (Path.resolve directory)) = .ok found :=
    (firstFile_congr ht hu fun c hc => h.find?_eq hfound hc).trans hfound
  rw [result_resolve u directory hfile, result_resolve t directory hfile,
    findFile_of_not_hasNull hdirectory, findFile_of_not_hasNull hdirectory, hsame, hfound]
  cases found with
  | none => rfl
  | some c =>
    have hc := h.find?_eq hfound (firstFile_eq_some_iff.mp hfound).1
    change contentOf u c.1 c.2 >>= _ = contentOf t c.1 c.2 >>= _
    rw [contentOf_congr hc]

/-- A resolution says what the file that is used says for the document. -/
theorem result_resolve_eq [YamlReader] {content : Path → Entries}
    (hdirectory : (Path.resolve directory).hasNull = false) (hfile : file ≠ "")
    (hsearch : Searchable t (Path.resolve directory))
    (hholds : Holds t (Path.resolve directory) content) :
    (resolve t directory (some file)).result =
      match usedFile t content (Path.resolve directory) with
      | none => .ok []
      | some c => match optionsIn content c.1 with
        | none => .ok []
        | some options => optionsOf options c.1.dropLast (some (Path.resolve file)) := by
  have hfound := firstFile_eq_find? hsearch hholds
  rw [result_resolve t directory hfile, findFile_of_not_hasNull hdirectory, hfound]
  cases hused : usedFile t content (Path.resolve directory) with
  | none =>
    rw [usedFile] at hused
    rw [hused]
    rfl
  | some c =>
    rw [usedFile] at hused
    rw [hused] at hfound ⊢
    have hfits := List.find?_some hused
    have hload := hholds c (firstFile_eq_some_iff.mp hfound).1 (Bool.and_eq_true_iff.mp hfits).1
    change contentOf t c.1 c.2 >>= _ = _
    rw [contentOf_eq_optionsIn hload hfits]
    dsimp only
    cases optionsIn content c.1 <;> rfl

/-- A resolution uses the first file to be searched that is there and holds options. It gives none
if there is no such file or if a package file has no mapping for them, and otherwise the options
that its clauses and its content give for the file. Trees that have the same in the directories up
to that of the file that is used give the same options. -/
theorem resolve_eq_optionFor [YamlReader] {content : Path → Entries} {clauses : List Clause}
    (hdirectory : '\x00' ∉ directory.toList) (hfile : file ≠ "") (hnull : '\x00' ∉ file.toList)
    (hsearch : Searchable t (Path.resolve directory))
    (hholds : Holds t (Path.resolve directory) content)
    (hclauses : ∀ c options, usedFile t content (Path.resolve directory) = some c →
      optionsIn content c.1 = some options → WritesClauses options clauses) :
    ∃ result, (resolve t directory (some file)).result = .ok result ∧
      ((usedFile t content (Path.resolve directory)).bind (fun c => optionsIn content c.1) = none →
        result = []) ∧
      (∀ c options, usedFile t content (Path.resolve directory) = some c →
        optionsIn content c.1 = some options → ∀ key, result.valueAt key =
          optionFor options clauses c.1.dropLast (Path.resolve file) key) ∧
      ∀ u, AgreeBetween t u (Path.resolve directory)
          (topOf (usedFile t content (Path.resolve directory))) →
        Searchable u (Path.resolve directory) →
        (resolve u directory (some file)).result = .ok result := by
  have hdirectory := Path.not_hasNull_resolve hdirectory
  have hresult := result_resolve_eq hdirectory hfile hsearch hholds
  have hsame (u : Tree) (hagree : AgreeBetween t u (Path.resolve directory)
      (topOf (usedFile t content (Path.resolve directory))))
      (hu : Searchable u (Path.resolve directory)) :
      (resolve u directory (some file)).result = (resolve t directory (some file)).result :=
    result_resolve_congr hdirectory hfile hsearch hu (firstFile_eq_find? hsearch hholds) hagree
  rw [hresult] at hsame ⊢
  clear hresult
  cases hused : usedFile t content (Path.resolve directory) with
  | none =>
    rw [hused] at hsame
    exact ⟨[], rfl, fun _ => rfl, fun c options hc => (Option.some_ne_none c hc.symm).elim, hsame⟩
  | some c =>
    rw [hused] at hsame
    cases hoptions : optionsIn content c.1 with
    | none =>
      simp only [hoptions] at hsame ⊢
      refine ⟨[], rfl, fun _ => rfl, fun d options hd h => ?_, hsame⟩
      cases hd
      cases hoptions.symm.trans h
    | some options =>
      simp only [hoptions] at hsame ⊢
      obtain ⟨result, hof, hvalue⟩ :=
        valueAt_optionsOf (hclauses c options hused hoptions) (Path.not_hasNull_resolve hnull)
      refine ⟨result, hof, fun h => ?_, fun d more hd h => ?_, fun u hagree hu => ?_⟩
      · cases hoptions.symm.trans h
      · cases hd
        cases hoptions.symm.trans h
        exact hvalue
      · exact (hsame u hagree hu).trans hof

/-- A package file without options, and another file with three overrides for the document: the
second sets an option again, and the third excludes the document. The options are the same in a tree
that has one more file further up, and others in one whose package file has a mapping for them. -/
theorem resolve_eq_optionFor_overrides :
    let text := "\x7b\"a\":1,\"overrides\":[" ++
      "\x7b\"files\":\"*.twig\",\"options\":\x7b\"a\":2,\"b\":4\x7d\x7d," ++
      "\x7b\"files\":[\"*.js\",\"x.*\"],\"options\":\x7b\"b\":8\x7d\x7d," ++
      "\x7b\"files\":\"*\",\"excludeFiles\":[\"x.*\"],\"options\":\x7b\"a\":9\x7d\x7d]\x7d"
    let file (s : String) : Node := .file { content := Utf8.encode s.toList }
    let t : Tree := ⟨[(["a"], .directory), (["a", "b"], .directory),
      (["a", "b", "package.json"], file "\x7b\"name\":\"b\"\x7d"),
      (["a", ".prettierrc.json"], file text)]⟩
    let u : Tree := t.put ["package.json"] (file "\x7b\"prettier\":0\x7d")
    let v : Tree := t.put ["a", "b", "package.json"] (file "\x7b\"prettier\":\x7b\"a\":5\x7d\x7d")
    (∃ result, (resolve t "/a/b" (some "/a/b/x.twig")).result = .ok result ∧
      (resolve u "/a/b" (some "/a/b/x.twig")).result = .ok result ∧
      result.valueAt (.str "a") = some (.int 2) ∧ result.valueAt (.str "b") = some (.int 8)) ∧
    ∃ result, (resolve v "/a/b" (some "/a/b/x.twig")).result = .ok result ∧
      result.valueAt (.str "a") = some (.int 5) ∧ result.valueAt (.str "b") = none := by
  intro text file t u v
  have hdirectory : '\x00' ∉ "/a/b".toList := by decide
  have hfile : "/a/b/x.twig" ≠ "" ∧ '\x00' ∉ "/a/b/x.twig".toList := by decide
  have hlong : ∀ c ∈ searched (Path.resolve "/a/b"), t.nameTooLong c.1 = false ∧
      u.nameTooLong c.1 = false ∧ v.nameTooLong c.1 = false := by decide +kernel
  let clauses : List Clause :=
    [⟨["*.twig"], [], [(.str "a", .int 2), (.str "b", .int 4)], by decide⟩,
      ⟨["*.js", "x.*"], [], [(.str "b", .int 8)], by decide⟩,
      ⟨["*"], ["x.*"], [(.str "a", .int 9)], by decide⟩]
  let overrides : List Entries :=
    [[(.str "files", .str "*.twig"),
        (.str "options", .map [(.str "a", .int 2), (.str "b", .int 4)])],
      [(.str "files", .list [.str "*.js", .str "x.*"]),
        (.str "options", .map [(.str "b", .int 8)])],
      [(.str "files", .str "*"), (.str "excludeFiles", .list [.str "x.*"]),
        (.str "options", .map [(.str "a", .int 9)])]]
  let options : Entries := [(.str "a", .int 1), (.str "overrides", .list (overrides.map .map))]
  have hwritten : List.Forall₂ Clause.IsWritten clauses overrides :=
    .cons ⟨.one _, .globs (.many []) (by decide), rfl⟩
      (.cons ⟨.many ["*.js", "x.*"], .globs (.many []) (by decide), rfl⟩
        (.cons ⟨.one _, .globs (.many ["x.*"]) (by decide), rfl⟩ .nil))
  have hfiles : ∀ c ∈ searched (Path.resolve "/a/b"),
      t.isFile c.1 = true ∨ v.isFile c.1 = true →
        c = (["a", "b", "package.json"], .json) ∨ c = (["a", ".prettierrc.json"], .json) := by
    decide +kernel
  have houter : load t ["a", ".prettierrc.json"] .json = .ok options :=
    load_of_parse rfl (by decide +kernel)
  refine ⟨?_, ?_⟩
  · let content (p : Path) : Entries :=
      if p.name = packageFile then [(.str "name", .str "b")] else options
    have hused : usedFile t content (Path.resolve "/a/b") =
        some (["a", ".prettierrc.json"], .json) := by decide +kernel
    have hclauses : ∀ c options, usedFile t content (Path.resolve "/a/b") = some c →
        optionsIn content c.1 = some options → WritesClauses options clauses := by
      intro c options hc hoptions
      cases hused.symm.trans hc
      cases hoptions
      exact ⟨overrides, rfl, hwritten⟩
    have hload : ∀ c ∈ searched (Path.resolve "/a/b"), t.isFile c.1 = true →
        load t c.1 c.2 = .ok (content c.1) := by
      intro c hc hfile
      rcases hfiles c hc (.inl hfile) with rfl | rfl
      · exact load_of_parse rfl (by decide +kernel)
      · exact houter
    obtain ⟨result, hresult, _, hvalue, hsame⟩ := resolve_eq_optionFor hdirectory hfile.1 hfile.2
      (fun c hc => (hlong c hc.mem).1) (fun c hc => hload c hc.mem) hclauses
    have hagree : AgreeBetween t u (Path.resolve "/a/b")
        (topOf (usedFile t content (Path.resolve "/a/b"))) := by
      rw [hused]
      rintro folder - ⟨rest, rfl⟩ name
      exact Tree.find?_put_of_ne (by simp [topOf]) _ t
    have hoption := hvalue _ options hused rfl
    refine ⟨result, hresult, hsame u hagree fun c hc => (hlong c hc.mem).2.1, ?_, ?_⟩
    · rw [hoption]
      decide +kernel
    · rw [hoption]
      decide +kernel
  · let inner : Entries := [(.str "a", .int 5)]
    let content (p : Path) : Entries :=
      if p.name = packageFile then [(.str "prettier", .map inner)] else options
    have hused : usedFile v content (Path.resolve "/a/b") =
        some (["a", "b", "package.json"], .json) := by decide +kernel
    have hclauses : ∀ c options, usedFile v content (Path.resolve "/a/b") = some c →
        optionsIn content c.1 = some options → WritesClauses options [] := by
      intro c options hc hoptions
      cases hused.symm.trans hc
      cases hoptions
      exact ⟨[], rfl, .nil⟩
    have hload : ∀ c ∈ searched (Path.resolve "/a/b"), v.isFile c.1 = true →
        load v c.1 c.2 = .ok (content c.1) := by
      intro c hc hfile
      rcases hfiles c hc (.inr hfile) with rfl | rfl
      · exact load_of_parse rfl (by decide +kernel)
      · exact (load_congr rfl).trans houter
    obtain ⟨result, hresult, _, hvalue, _⟩ := resolve_eq_optionFor hdirectory hfile.1 hfile.2
      (fun c hc => (hlong c hc.mem).2.2) (fun c hc => hload c hc.mem) hclauses
    have hoption := hvalue _ inner hused rfl
    refine ⟨result, hresult, ?_, ?_⟩
    · rw [hoption]
      decide +kernel
    · rw [hoption]
      decide +kernel

/-- A directory with a name that is too long for the system to look it up, and one with a null
character, for which nothing is found and yet there is a fault; a file with a null character; and a
glob that is empty and excludes nothing, though it fits the root. -/
theorem resolve_ne_reference :
    let text := "\x7b\"overrides\":[\x7b\"files\":\"*\",\"excludeFiles\":\"\"," ++
      "\"options\":\x7b\"a\":1\x7d\x7d]\x7d"
    let t : Tree := ⟨[([".prettierrc.json"], .file { content := Utf8.encode text.toList })]⟩
    let name := String.ofList (List.replicate 256 'a')
    (∀ p, Tree.empty.isFile p = false) ∧
    (resolve .empty (Path.render [name]) (some "/x.twig")).result =
      .error (.file .nameTooLong (Path.render [name, packageFile])) ∧
    (resolve .empty "/\x00" (some "/x.twig")).result = .error .nullInPath ∧
    (resolve t "/" (some "/\x00")).result = .error .nullInPath ∧
    globsFit (.str "") (Path.resolve "/..") (some []) = .ok true ∧
      (resolve t "/" (some "/..")).result = .ok [(.str "a", .int 1)] := by
  intro text t name
  have htext : name.toList = List.replicate 256 'a' := String.toList_ofList
  have hne (s : String) (hs : s.toList.length ≠ 256) : name ≠ s := fun h =>
    hs (by rw [← h, htext, List.length_replicate])
  have hnot (c : Char) (hc : c ≠ 'a') : c ∉ name.toList := fun h =>
    hc (List.eq_of_mem_replicate (htext ▸ h))
  have hname : Path.Normal [name] := List.forall_mem_singleton.mpr
    ⟨hne "" (by decide), hne "." (by decide), hne ".." (by decide), hnot '/' (by decide),
      hnot '\x00' (by decide)⟩
  have hlong : Tree.empty.nameTooLong [name, packageFile] = true :=
    Bool.or_eq_true_iff.mpr (.inr (by decide +kernel))
  have hholds : holdsOptions .empty [name, packageFile] .json =
      .error (.file .nameTooLong (Path.render [name, packageFile])) := by
    unfold holdsOptions
    rw [hlong]
    rfl
  have hfirst : firstFile .empty (searched [name]) =
      .error (.file .nameTooLong (Path.render [name, packageFile])) := by
    obtain ⟨rest, hrest⟩ : ∃ rest, searched [name] = ([name, packageFile], .json) :: rest :=
      ⟨_, rfl⟩
    rw [hrest]
    unfold firstFile
    rw [hholds]
    rfl
  refine ⟨fun p => by cases p <;> rfl, ?_, ?_, ?_, ?_, ?_⟩
  · rw [result_resolve .empty _ (by decide), Path.resolve_render hname,
      findFile_of_not_hasNull hname.not_hasNull, hfirst]
    rfl
  all_goals decide +kernel

end TwigLayout.ProjectOptions
