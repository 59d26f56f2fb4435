import TwigLayout.CommandLine
import TwigLayout.Proofs.Logged

/-!
# Trees that differ in their templates

A run writes to templates alone, and only to such that are there. Two trees that differ in nothing
else are a *recast* of each other.

1. `Recast.readText_eq`: a file reads the same in both, if it is the same.
2. `Recast.resolve_eq`: the options of a project are the same, as no options file has the name of a
   template.
3. `Recast.format_eq`: so a text is formatted to the same text.
-/

namespace TwigLayout

open Text

/-! ## Names of templates -/

/-- The text ends as the name of a template does. -/
def IsTemplateName (name : String) : Prop := ".twig".toList <:+ name.toList

namespace Path

theorem suffix_lastPart (s : Text) : ending.lastPart s <:+ s := by
  unfold ending.lastPart
  cases h : lastCut? ['/'] s with
  | none => exact List.suffix_refl s
  | some parts =>
    have hs := lastCut?_eq_some h
    exact ⟨parts.1 ++ ['/'], hs.symm⟩

end Path

theorem languageOf_eq_iff {path : String} :
    languageOf path = templateLanguage ↔ IsTemplateName path := by
  unfold IsTemplateName
  rw [languageOf]
  split
  · next h => exact iff_of_true rfl (List.isSuffixOf_iff_suffix.mp h)
  · next h =>
    refine iff_of_false (fun he => ?_) fun hs => h (List.isSuffixOf_iff_suffix.mpr hs)
    -- an ending that is the name of the language has a dot before it
    split at he
    · exact absurd he (by decide)
    · rw [Path.ending] at he
      split at he
      · next stem rest hcut =>
        split at he
        · exact absurd he (by decide)
        · have hrest : rest = "twig".toList := by
            rw [← String.toList_ofList (l := rest), he]
            rfl
          have hbase := lastCut?_eq_some hcut
          rw [hrest, List.append_assoc] at hbase
          refine h (List.isSuffixOf_iff_suffix.mpr (List.IsSuffix.trans ⟨stem, ?_⟩
            (Path.suffix_lastPart path.toList)))
          exact hbase.symm
      · exact absurd he (by decide)

theorem IsTemplateName.ne {name : String} (h : IsTemplateName name) (other : String)
    (ho : ¬ ".twig".toList <:+ other.toList) : name ≠ other := by
  rintro rfl
  exact ho h

/-- A text without the separator that a joined text ends with is the end of the last part. -/
theorem suffix_of_suffix_intercalate {c : Char} {w last : Text} (hc : c ∉ w) (fields : List Text)
    (h : w <:+ [c].intercalate (fields ++ [last])) : w <:+ last := by
  induction fields with
  | nil =>
    rw [List.nil_append, List.intercalate_singleton] at h
    exact h
  | cons field fields ih =>
    obtain ⟨f, more, hm⟩ := List.exists_cons_of_ne_nil (show fields ++ [last] ≠ [] by simp)
    rw [List.cons_append, hm, List.intercalate_cons_cons, ← hm, List.append_assoc,
      List.singleton_append] at h
    rcases List.suffix_or_suffix_of_suffix h (List.suffix_append field _) with h | h
    · rcases List.suffix_cons_iff.mp h with rfl | h
      · exact absurd List.mem_cons_self hc
      · exact ih h
    · exact absurd (h.subset List.mem_cons_self) hc

/-- The last name of the path of a template ends as that of a template. -/
theorem Path.exists_names_eq {path : String} (h : IsTemplateName path) :
    ∃ dir name, names path = dir ++ [name] ∧ IsTemplateName name := by
  obtain ⟨fields, last, hf⟩ := List.eq_nil_or_concat (splitOn ['/'] path.toList) |>.resolve_left
    (fields_ne_nil _)
  rw [List.concat_eq_append] at hf
  have hlast : IsTemplateName (String.ofList last) := by
    unfold IsTemplateName at h ⊢
    have hs : ['/'].intercalate (splitOn ['/'] path.toList) = path.toList :=
      intercalate_splitOn (by simp) path.toList
    rw [← hs, hf] at h
    rw [String.toList_ofList (l := last)]
    exact suffix_of_suffix_intercalate (c := '/') (by decide) fields h
  refine ⟨(fields.map String.ofList).filter fun name => name != "" && name != ".",
    String.ofList last, ?_, hlast⟩
  have hkept : (String.ofList last != "" && String.ofList last != ".") = true := by
    rw [Bool.and_eq_true, bne_iff_ne, bne_iff_ne]
    exact ⟨hlast.ne _ (by decide), hlast.ne _ (by decide)⟩
  rw [names, hf, List.map_append, List.filter_append, List.map_singleton,
    List.filter_cons_of_pos (by exact hkept), List.filter_nil]

/-- The path of a template. -/
def Path.IsTemplate (p : Path) : Prop := ∃ dir name, p = dir ++ [name] ∧ IsTemplateName name

theorem Path.step_eq_concat {name : String} (h : IsTemplateName name) (dir : Path) :
    step dir name = dir ++ [name] := by
  rw [step, if_neg (h.ne _ (by decide))]

theorem Path.resolve_eq_concat {path name : String} {dir : List String}
    (hn : names path = dir ++ [name]) (h : IsTemplateName name) :
    resolve path = dir.foldl step [] ++ [name] := by
  rw [resolve, hn, List.foldl_append, List.foldl_cons, List.foldl_nil, step_eq_concat h]

theorem Path.isTemplate_resolve {path : String} (h : IsTemplateName path) :
    (resolve path).IsTemplate := by
  obtain ⟨dir, name, hn, hname⟩ := exists_names_eq h
  exact ⟨dir.foldl step [], name, resolve_eq_concat hn hname, hname⟩

theorem Path.IsTemplate.ne_nil {p : Path} (h : p.IsTemplate) : p ≠ [] := by
  obtain ⟨dir, name, rfl, _⟩ := h
  simp

theorem Path.not_isTemplate_concat {dir : Path} {name : String}
    (h : ¬ ".twig".toList <:+ name.toList) : ¬ (dir ++ [name]).IsTemplate := by
  rintro ⟨dir', name', he, hname⟩
  obtain ⟨_, hn⟩ := List.append_inj' he rfl
  cases hn
  exact h hname

/-! ## Recast trees -/

namespace Tree

/-- The trees have the same nodes, but for what the templates hold. -/
def Recast (t u : Tree) : Prop :=
  ∀ p, u.find? p = t.find? p ∨ p.IsTemplate ∧ (∃ f, t.find? p = some (.file f)) ∧
    ∃ f, u.find? p = some (.file f)

namespace Recast

variable {t u : Tree}

theorem refl (t : Tree) : Recast t t := fun _ => .inl rfl

/-- A template that is there may be written. -/
theorem put (h : Recast t u) {p : Path} (hp : p.IsTemplate) (hf : ∃ f, t.find? p = some (.file f))
    (f : File) : Recast t (u.put p (.file f)) := by
  intro q
  by_cases hq : q = p
  · rw [hq]
    exact .inr ⟨hp, hf, f, find?_put_self hp.ne_nil _ u⟩
  · rw [find?_put_of_ne hq]
    exact h q

theorem isDirectory_eq (h : Recast t u) (p : Path) : u.isDirectory p = t.isDirectory p := by
  unfold isDirectory
  rcases h p with he | ⟨_, ⟨f, ht⟩, g, hu⟩
  · rw [he]
  · rw [ht, hu]

theorem isFile_eq (h : Recast t u) (p : Path) : u.isFile p = t.isFile p := by
  unfold isFile file?
  rcases h p with he | ⟨_, ⟨f, ht⟩, g, hu⟩
  · rw [he]
  · rw [ht, hu]
    rfl

theorem file?_eq (h : Recast t u) {p : Path} (hp : ¬ p.IsTemplate) : u.file? p = t.file? p := by
  unfold file?
  rcases h p with he | ⟨hp', _⟩
  · rw [he]
  · exact absurd hp' hp

theorem nameTooLong_eq (h : Recast t u) (p : Path) : u.nameTooLong p = t.nameTooLong p := by
  unfold nameTooLong
  simp only [h.isDirectory_eq]

/-! ## Reading -/

theorem walk_eq (h : Recast t u) (s : String) (names : List String) (dir : Path) :
    u.walk s names dir = t.walk s names dir := by
  induction names generalizing dir with
  | nil => rfl
  | cons name names ih =>
    unfold walk
    rcases h dir with he | ⟨_, ⟨f, ht⟩, g, hu⟩
    · rw [he]
      simp only [ih]
    · rw [ht, hu]

end Recast

theorem eq_foldl_of_walk {t : Tree} {s : String} {names : List String} {dir p : Path}
    (h : t.walk s names dir = .ok p) : p = names.foldl Path.step dir := by
  induction names generalizing dir with
  | nil => exact (Except.ok.inj h).symm
  | cons name names ih =>
    unfold walk at h
    split at h
    · split at h
      · cases h
      · exact ih h
    · cases h
    · cases h

namespace Recast

variable {t u : Tree}

/-- A file reads the same in both trees, if it is the same. -/
theorem readText_eq (h : Recast t u) {s : String}
    (hs : u.find? (Path.resolve s) = t.find? (Path.resolve s)) : u.readText s = t.readText s := by
  have hbytes : u.readBytes s = t.readBytes s := by
    unfold readBytes
    rw [h.walk_eq]
    cases hw : t.walk s (Path.names s) [] with
    | error e => rfl
    | ok p =>
      have hp : p = Path.resolve s := eq_foldl_of_walk hw
      simp only [bind, Except.bind, hp, hs]
  unfold readText
  rw [hbytes]

end Recast

end Tree

/-! ## Options -/

namespace ProjectOptions

theorem not_isTemplate_of_mem_searched {dir : Path} {c : Path × Format} (h : c ∈ searched dir) :
    ¬ c.1.IsTemplate := by
  obtain ⟨folder, _, hc⟩ := List.mem_flatMap.mp h
  obtain ⟨⟨name, format⟩, hm, rfl⟩ := List.mem_map.mp hc
  have hnames : ∀ e ∈ candidates, ¬ ".twig".toList <:+ e.1.toList := by decide
  exact Path.not_isTemplate_concat (hnames _ hm)

theorem mem_of_firstFile [YamlReader] {t : Tree} {files : List (Path × Format)} {c : Path × Format}
    (h : firstFile t files = .ok (some c)) : c ∈ files := by
  induction files with
  | nil => cases h
  | cons file files ih =>
    obtain ⟨p, format⟩ := file
    obtain ⟨holds, _, h⟩ := bind_eq_ok.mp h
    cases holds with
    | true =>
      cases h
      exact List.mem_cons_self
    | false => exact List.mem_cons_of_mem _ (ih h)

theorem mem_of_findFile [YamlReader] {t : Tree} {dir : Path} {c : Path × Format}
    (h : findFile t dir = .ok (some c)) : c ∈ searched dir := by
  unfold findFile at h
  split at h
  · cases h
  · exact mem_of_firstFile h

end ProjectOptions

namespace Tree.Recast

open ProjectOptions

variable [YamlReader] {t u : Tree}

theorem load_eq (h : Recast t u) {p : Path} (hp : ¬ p.IsTemplate) (format : Format) :
    load u p format = load t p format := by
  unfold load
  rw [h.file?_eq hp]

theorem holdsOptions_eq (h : Recast t u) {p : Path} (hp : ¬ p.IsTemplate) (format : Format) :
    holdsOptions u p format = holdsOptions t p format := by
  unfold holdsOptions
  rw [h.nameTooLong_eq, h.isFile_eq, h.load_eq hp]

theorem firstFile_eq (h : Recast t u) {files : List (Path × Format)}
    (hf : ∀ c ∈ files, ¬ c.1.IsTemplate) : firstFile u files = firstFile t files := by
  induction files with
  | nil => rfl
  | cons file files ih =>
    obtain ⟨hfile, hfiles⟩ := List.forall_mem_cons.mp hf
    unfold firstFile
    rw [h.holdsOptions_eq hfile, ih hfiles]

theorem findFile_eq (h : Recast t u) (dir : Path) : findFile u dir = findFile t dir := by
  unfold findFile
  rw [h.firstFile_eq fun _ hc => not_isTemplate_of_mem_searched hc]

theorem contentOf_eq (h : Recast t u) {p : Path} (hp : ¬ p.IsTemplate) (format : Format) :
    contentOf u p format = contentOf t p format := by
  unfold contentOf
  rw [h.load_eq hp]

/-- The options of a project are the same in both trees. -/
theorem resolve_eq (h : Recast t u) (directory : String) (file : Option String) :
    ProjectOptions.resolve u directory file = ProjectOptions.resolve t directory file := by
  unfold ProjectOptions.resolve
  rw [h.findFile_eq]
  refine Logged.bind_congr fun found hfound => ?_
  cases found with
  | none => rfl
  | some c =>
    obtain ⟨p, format⟩ := c
    have hp := not_isTemplate_of_mem_searched (mem_of_findFile hfound)
    simp only [h.contentOf_eq hp]

/-! ## Formatting -/

variable (p : Pipeline)

theorem prepare_eq (h : Recast t u) (s : Text) (file : String) (workspace : Option String) :
    p.prepare u s file workspace = p.prepare t s file workspace := by
  unfold Pipeline.prepare Pipeline.request
  simp only [h.resolve_eq]

/-- A text is formatted to the same text in both trees. -/
theorem format_eq (h : Recast t u) (formatter : Formatter) (s : Text) (file : String)
    (workspace : Option String) :
    p.format formatter u s file workspace = p.format formatter t s file workspace := by
  unfold Pipeline.format
  rw [h.prepare_eq]

end Tree.Recast

end TwigLayout
