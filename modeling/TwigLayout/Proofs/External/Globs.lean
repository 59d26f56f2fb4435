import TwigLayout.ProjectOptions
import TwigLayout.Proofs.Logged
import TwigLayout.Proofs.Run.Write
import TwigLayout.Proofs.Text.Rescan

/-!
# Globs and the place of a project

A glob with a slash is matched with the path from the directory of the options file, any other with
the name of the file. So the place of the project has no part in it:

1. `Path.resolve_render` and `Path.written?_render`: a normal path is what its text stands for.
2. `globFits_below` and `globFits_of_no_slash`: what a glob is matched with, inside of the
   directory and for a glob without a slash.
3. `globsFit_relocate`: globs fit a file if they fit it after the directory was moved with all that
   is in it, and globs without a slash look at nothing but the name of the file.
-/

namespace TwigLayout

open Text

/-! ## Normal paths -/

namespace Path

/-- A name that a file or a directory can have. -/
structure IsName (name : String) : Prop where
  ne_empty : name ≠ ""
  ne_dot : name ≠ "."
  ne_dots : name ≠ ".."
  no_slash : '/' ∉ name.toList
  no_null : '\x00' ∉ name.toList

instance : DecidablePred IsName := fun name =>
  decidable_of_iff (name ≠ "" ∧ name ≠ "." ∧ name ≠ ".." ∧ '/' ∉ name.toList ∧
    '\x00' ∉ name.toList)
    ⟨fun ⟨h, h', h'', hslash, hnull⟩ => ⟨h, h', h'', hslash, hnull⟩,
      fun h => ⟨h.ne_empty, h.ne_dot, h.ne_dots, h.no_slash, h.no_null⟩⟩

/-- A path on which nothing is left to resolve. -/
def Normal (p : Path) : Prop := ∀ name ∈ p, IsName name

instance (p : Path) : Decidable p.Normal := inferInstanceAs (Decidable (∀ name ∈ p, IsName name))

variable {p dir rest : Path}

theorem Normal.append (hp : p.Normal) (hrest : rest.Normal) : Normal (p ++ rest) :=
  List.forall_mem_append.mpr ⟨hp, hrest⟩

theorem Normal.not_hasNull (h : p.Normal) : p.hasNull = false := by
  rw [hasNull, List.any_eq_false]
  intro name hname
  rw [List.contains_iff_mem]
  exact (h name hname).no_null

theorem names_render (h : p.Normal) : names (render p) = p := by
  cases p with
  | nil => rfl
  | cons name p =>
    have htext : (render (name :: p)).toList =
        ['/'].intercalate ([] :: (name :: p).map String.toList) := by
      rw [render, String.toList_append, String.toList_intercalate]
      rfl
    have hslash : ∀ part ∈ [] :: (name :: p).map String.toList, ¬ ['/'] <:+: part ++ [] := by
      intro part hpart hi
      rw [List.append_nil] at hi
      have hmem : '/' ∈ part := hi.subset List.mem_cons_self
      rcases List.mem_cons.mp hpart with rfl | hpart
      · exact List.not_mem_nil hmem
      · obtain ⟨other, hother, rfl⟩ := List.mem_map.mp hpart
        exact (h other hother).no_slash hmem
    have hkept : ∀ other ∈ name :: p, (other != "" && other != ".") = true := by
      intro other hother
      rw [Bool.and_eq_true, bne_iff_ne, bne_iff_ne]
      exact ⟨(h other hother).ne_empty, (h other hother).ne_dot⟩
    have hid : String.ofList ∘ String.toList = id := funext fun s => String.ofList_toList
    rw [names, htext, splitOn_intercalate (List.cons_ne_nil _ _) (List.cons_ne_nil _ _) hslash,
      List.map_cons, List.map_map, hid, List.map_id, List.filter_cons_of_neg (by decide),
      List.filter_eq_self.mpr hkept]

theorem foldl_step_of_normal (h : p.Normal) (dir : Path) : p.foldl step dir = dir ++ p := by
  induction p generalizing dir with
  | nil => exact (List.append_nil dir).symm
  | cons name p ih =>
    obtain ⟨hname, hp⟩ := List.forall_mem_cons.mp h
    rw [List.foldl_cons, step, if_neg hname.ne_dots, ih hp, List.append_assoc,
      List.singleton_append]

theorem resolve_render (h : p.Normal) : resolve (render p) = p := by
  rw [resolve, names_render h, foldl_step_of_normal h, List.nil_append]

/-- The text of a normal path does not start with two slashes. -/
theorem written?_render (h : p.Normal) : written? (render p) = some p := by
  cases p with
  | nil => rfl
  | cons name p =>
    have hname := h name List.mem_cons_self
    obtain ⟨c, s, hs⟩ := List.exists_cons_of_ne_nil (l := name.toList)
      fun hnil => hname.ne_empty (String.toList_eq_nil_iff.mp hnil)
    have hc : c ≠ '/' := by
      rintro rfl
      exact hname.no_slash (hs ▸ List.mem_cons_self)
    obtain ⟨tail, htail⟩ : ∃ tail, (render (name :: p)).toList = '/' :: c :: tail := by
      rw [render, String.toList_append, String.toList_intercalate, List.map_cons,
        intercalate_cons_eq_flatMap, hs]
      exact ⟨_, rfl⟩
    rw [written?, htail]
    split
    · next he => exact absurd (List.cons.inj (List.cons.inj he).2).1 hc
    · next he => exact absurd (List.cons.inj (List.cons.inj he).2).1 hc
    · rw [names_render h]
    · next hno => exact absurd rfl (hno (c :: tail))

theorem not_hasNull_resolve {s : String} (h : '\x00' ∉ s.toList) : (resolve s).hasNull = false := by
  have hsteps : ∀ (names : List String) (dir : Path), hasNull names = false →
      dir.hasNull = false → (names.foldl step dir).hasNull = false := by
    intro names
    induction names with
    | nil => exact fun _ _ hdir => hdir
    | cons name names ih =>
      intro dir hnames hdir
      rw [hasNull, List.any_cons, Bool.or_eq_false_iff] at hnames
      refine ih _ hnames.2 ?_
      unfold step
      split
      · rw [hasNull, List.any_eq_false] at hdir ⊢
        exact fun other hother => hdir other (List.dropLast_subset dir hother)
      · rw [hasNull, List.any_append, List.any_cons, hnames.1]
        simpa [hasNull] using hdir
  exact hsteps (names s) [] (not_hasNull_names h) rfl

theorem name_append (dir : Path) (h : rest ≠ []) : name (dir ++ rest) = rest.name := by
  rw [name, name, List.getLast?_append_of_ne_nil dir h]

end Path

namespace ProjectOptions

variable {file file' : Path} {dir dir' : Option Path}

/-! ## One glob -/

/-- What a glob with a slash is matched with: the path of a file from a directory, or the whole path
if it lies elsewhere. -/
def seenFrom (dir : Option Path) (file : Path) : String :=
  ((dir.bind (Path.below? · file)).map Path.renderRelative).getD file.render

theorem seenFrom_append (dir rest : Path) :
    seenFrom (some dir) (dir ++ rest) = rest.renderRelative := by
  rw [seenFrom, Option.bind_some, Path.below?_eq_some_iff.mpr rfl]
  rfl

/-- A glob without the dot and the slash that it may start with. -/
def unprefixed (glob : Text) : Text := (after? ['.', '/'] glob).getD glob

theorem globFits_of_slash {glob : Text} (h : '/' ∈ glob) (file : Path) (dir : Option Path) :
    globFits file dir glob =
      (Glob.fits (unprefixed glob) (seenFrom dir file).toList ||
        Glob.fits (replaceAll "**/".toList [] (unprefixed glob)) (seenFrom dir file).toList) := by
  unfold globFits
  rw [if_pos (List.contains_iff_mem.mpr h)]
  rfl

theorem globFits_of_no_slash {glob : Text} (h : '/' ∉ glob) (file : Path) (dir : Option Path) :
    globFits file dir glob = Glob.fits glob file.name.toList := by
  unfold globFits
  rw [if_neg (mt List.contains_iff_mem.mp h)]

/-- Inside of the directory a glob is matched with what is below the directory. -/
theorem globFits_below (dir : Path) {rest : Path} (hrest : rest ≠ []) (glob : Text) :
    globFits (dir ++ rest) (some dir) glob = globFits rest (some []) glob := by
  by_cases h : '/' ∈ glob
  · rw [globFits_of_slash h, globFits_of_slash h, seenFrom_append, ← seenFrom_append [] rest,
      List.nil_append]
  · rw [globFits_of_no_slash h, globFits_of_no_slash h, Path.name_append dir hrest]

/-! ## Several globs -/

theorem anyFits_congr {items : List Value}
    (h : ∀ glob, .str glob ∈ items →
      globFits file dir glob.toList = globFits file' dir' glob.toList) :
    anyFits file dir items = anyFits file' dir' items := by
  induction items with
  | nil => rfl
  | cons item rest ih =>
    have hitem : itemFits file dir item = itemFits file' dir' item := by
      unfold itemFits
      split
      · rw [h _ List.mem_cons_self]
      · rfl
    unfold anyFits
    rw [hitem, ih fun glob hglob => h glob (List.mem_cons_of_mem _ hglob)]

/-- Values are globs for two files alike if every glob stands for both or for none. -/
theorem globsFit_congr (hnull : file.hasNull = file'.hasNull)
    (h : ∀ glob, globFits file dir glob = globFits file' dir' glob) (globs : Value) :
    globsFit globs file dir = globsFit globs file' dir' := by
  have hany (items : List Value) : anyFits file dir items = anyFits file' dir' items :=
    anyFits_congr fun glob _ => h glob.toList
  unfold globsFit
  rw [hnull]
  simp only [hany]

/-- A list of globs stands for a file if one of them does. -/
theorem globsFit_list (hnull : file.hasNull = false) (globs : List String) :
    globsFit (.list (globs.map .str)) file dir =
      .ok (globs.any fun glob => globFits file dir glob.toList) := by
  have hany : anyFits file dir (globs.map .str) =
      .ok (globs.any fun glob => globFits file dir glob.toList) := by
    induction globs with
    | nil => rfl
    | cons glob globs ih =>
      rw [List.map_cons, anyFits, ih, List.any_cons, itemFits]
      cases globFits file dir glob.toList <;> rfl
  unfold globsFit
  rw [hnull]
  exact hany

theorem globsFit_str (hnull : file.hasNull = false) (glob : String) :
    globsFit (.str glob) file dir = .ok (globFits file dir glob.toList) := by
  have hlist : globsFit (.list ([glob].map .str)) file dir = _ := globsFit_list hnull [glob]
  rw [List.any_cons, List.any_nil, Bool.or_false] at hlist
  unfold globsFit at hlist ⊢
  rw [hnull] at hlist ⊢
  exact hlist

/-- Globs fit a file below a directory as they fit it below any other: the files and directories
have normal paths. Globs without a slash look at the name of a file alone, wherever the file lies
and whichever directory they belong to. A text with a null character is no path. -/
theorem globsFit_relocate :
    (∀ (globs : Value) (dir dir' rest : Path), dir.Normal → dir'.Normal → rest.Normal →
      rest ≠ [] →
      globsFit globs (Path.resolve (Path.render (dir ++ rest))) (Path.written? dir.render) =
        globsFit globs (Path.resolve (Path.render (dir' ++ rest))) (Path.written? dir'.render)) ∧
    ∀ globs : List String, (∀ glob ∈ globs, '/' ∉ glob.toList) →
      ∀ (file file' : String) (dir dir' : Option Path), '\x00' ∉ file.toList →
        '\x00' ∉ file'.toList → (Path.resolve file).name = (Path.resolve file').name →
        globsFit (.list (globs.map .str)) (Path.resolve file) dir =
          globsFit (.list (globs.map .str)) (Path.resolve file') dir' := by
  constructor
  · intro globs dir dir' rest hdir hdir' hrest hne
    rw [Path.resolve_render (hdir.append hrest), Path.resolve_render (hdir'.append hrest),
      Path.written?_render hdir, Path.written?_render hdir']
    refine globsFit_congr ?_ (fun glob => ?_) globs
    · rw [(hdir.append hrest).not_hasNull, (hdir'.append hrest).not_hasNull]
    · rw [globFits_below dir hne, globFits_below dir' hne]
  · intro globs hglobs file file' dir dir' hnull hnull' hname
    unfold globsFit
    rw [Path.not_hasNull_resolve hnull, Path.not_hasNull_resolve hnull']
    refine anyFits_congr fun glob hglob => ?_
    obtain ⟨_, hmem, he⟩ := List.mem_map.mp hglob
    cases he
    rw [globFits_of_no_slash (hglobs glob hmem), globFits_of_no_slash (hglobs glob hmem), hname]

/-- A project in the root and the same project two directories deeper; and two files of one name, of
which the first lies outside of the directory. -/
theorem globsFit_relocate_template :
    let globs := Value.list (["*.js", "./templates/**/*.twig"].map .str)
    let names := Value.list (["*.js", "*.twig"].map .str)
    (globsFit globs (Path.resolve "/templates/a/x.twig") (Path.written? "/") = .ok true ∧
      globsFit globs (Path.resolve "/srv/shop/templates/a/x.twig") (Path.written? "/srv/shop") =
        .ok true) ∧
    globsFit names (Path.resolve "/b/../x.twig") (some ["srv", "shop"]) = .ok true ∧
      globsFit names (Path.resolve "/srv//./shop/a/x.twig") (some ["srv", "shop"]) = .ok true := by
  intro globs names
  have hdeep : globsFit globs (Path.resolve "/templates/a/x.twig") (Path.written? "/") =
      globsFit globs (Path.resolve "/srv/shop/templates/a/x.twig") (Path.written? "/srv/shop") :=
    globsFit_relocate.1 globs [] ["srv", "shop"] ["templates", "a", "x.twig"] (by decide)
      (by decide) (by decide) (by decide)
  have hname := globsFit_relocate.2 ["*.js", "*.twig"] (by decide) "/b/../x.twig"
    "/srv//./shop/a/x.twig" (some ["srv", "shop"]) (some ["srv", "shop"]) (by decide) (by decide)
    (by decide +kernel)
  have hroot : globsFit globs (Path.resolve "/templates/a/x.twig") (Path.written? "/") =
      .ok true := by decide +kernel
  have hinside : globsFit names (Path.resolve "/srv//./shop/a/x.twig") (some ["srv", "shop"]) =
      .ok true := by decide +kernel
  exact ⟨⟨hroot, hdeep.symm.trans hroot⟩, hname.trans hinside, hinside⟩

end ProjectOptions

end TwigLayout
