import TwigLayout.ProjectOptions
import TwigLayout.Proofs.Logged

/-!
# Overrides that can be applied

An options file is a value that somebody else wrote. Nothing checks what stands under its key for
overrides, so each place of it has a form that it must have for the file at hand, and a fault of
its own if it does not. None of these faults is one that formatting with an engine declares: they
are *stray*.

`StraysUnless x P` says both things at once, that `x` gives a value if `P` holds and ends in a stray
fault otherwise. It goes along with every way in which the computations are put together
(`StraysUnless.bind`, `straysUnless_mapM`, `straysUnless_foldlM`), so each function has one
statement, down to all the options for a file (`straysUnless_optionsOf`).
-/

namespace TwigLayout

/-- The faults that formatting with an engine declares: those of the options files of a project, and
those of the engine. -/
def Fault.isExternal : Fault → Bool
  | unreadableOptions .. | malformedOptions .. | optionsNotMapping ..
  | engineMissing .. | engineTimeout .. | engineFailed .. => true
  | _ => false

/-! ## Stray faults -/

section StraysUnless

variable {α β : Type} {x : Except Fault α} {f : α → Except Fault β} {P Q : Prop}

/-- There is a value if `P`, and a fault that is not declared otherwise. -/
structure StraysUnless (x : Except Fault α) (P : Prop) : Prop where
  of_ok : ∀ a, x = .ok a → P
  of_error : ∀ e, x = .error e → ¬ P ∧ e.isExternal = false

theorem straysUnless_ok (a : α) (h : P) : StraysUnless (.ok a) P where
  of_ok _ _ := h
  of_error _ he := by cases he

theorem straysUnless_error {e : Fault} (h : ¬ P) (he : e.isExternal = false) :
    StraysUnless (.error e : Except Fault α) P where
  of_ok _ ha := by cases ha
  of_error _ h' := by
    cases h'
    exact ⟨h, he⟩

theorem straysUnless_ite {c : Prop} [Decidable c] (a : α) {e : Fault}
    (he : e.isExternal = false) : StraysUnless (if c then .ok a else .error e) c := by
  by_cases h : c
  · rw [if_pos h]
    exact straysUnless_ok a h
  · rw [if_neg h]
    exact straysUnless_error h he

theorem StraysUnless.congr (h : StraysUnless x P) (hpq : P ↔ Q) : StraysUnless x Q := by
  rwa [← propext hpq]

theorem StraysUnless.exists_iff (h : StraysUnless x P) : (∃ a, x = .ok a) ↔ P := by
  cases x with
  | ok a => exact iff_of_true ⟨a, rfl⟩ (h.of_ok a rfl)
  | error e => exact iff_of_false (fun ⟨_, ha⟩ => by cases ha) (h.of_error e rfl).1

theorem StraysUnless.bind {R : α → Prop} (h : StraysUnless x P)
    (hf : ∀ a, x = .ok a → StraysUnless (f a) (R a)) :
    StraysUnless (x >>= f) (∃ a, x = .ok a ∧ R a) := by
  cases x with
  | ok a =>
    refine (hf a rfl).congr ⟨fun hr => ⟨a, rfl, hr⟩, ?_⟩
    rintro ⟨b, hb, hr⟩
    cases hb
    exact hr
  | error e => exact straysUnless_error (fun ⟨_, ha, _⟩ => by cases ha) (h.of_error e rfl).2

/-- What comes next may ask for the same of each value. -/
theorem StraysUnless.bind_and (h : StraysUnless x P) (hf : ∀ a, StraysUnless (f a) Q) :
    StraysUnless (x >>= f) (P ∧ Q) := by
  refine (h.bind fun a _ => hf a).congr ?_
  rw [← h.exists_iff]
  exact ⟨fun ⟨a, ha, hq⟩ => ⟨⟨a, ha⟩, hq⟩, fun ⟨⟨a, ha⟩, hq⟩ => ⟨a, ha, hq⟩⟩

theorem StraysUnless.map (h : StraysUnless x P) (g : α → β) : StraysUnless (do return g (← x)) P :=
  (h.bind_and fun a => straysUnless_ok (g a) trivial).congr (and_iff_left trivial)

end StraysUnless

namespace ProjectOptions

variable {file : Path} {dir : Option Path}

/-! ## Globs -/

/-- Globs that can be tried one after the other: all of them are texts, up to the first one that
stands for the file. -/
inductive Triable (file : Path) (dir : Option Path) : List Value → Prop
  | nil : Triable file dir []
  | hit {glob : String} {rest : List Value} : globFits file dir glob.toList = true →
      Triable file dir (.str glob :: rest)
  | miss {glob : String} {rest : List Value} : globFits file dir glob.toList = false →
      Triable file dir rest → Triable file dir (.str glob :: rest)

/-- A value that can stand in the place of globs: a text, or a collection of which the globs can be
tried. -/
def AreGlobs (file : Path) (dir : Option Path) (globs : Value) : Prop :=
  (∃ glob, globs = .str glob) ∨ ∃ items, globs.items = .ok items ∧ Triable file dir items

/-- An item that gives a key and a value. -/
def IsPair (item : Value) : Prop := ∃ k v, item.items = .ok [k, v] ∧ k.noKey? = none

/-- A value that can stand in the place of options: a mapping, or a collection of pairs. -/
def AreOptions (v : Value) : Prop :=
  (∃ more, v = .map more) ∨ ∃ items, v.items = .ok items ∧ ∀ item ∈ items, IsPair item

namespace Override

/-- What stands for the globs of an override. -/
def files (override : Entries) : Value := (override.get? "files").getD (.list [])

/-- What stands for the globs that an override excludes. -/
def excluded (override : Entries) : Value := (override.get? "excludeFiles").getD (.list [])

/-- The globs of an override have the form that trying them on a file asks for. Those it excludes
are tried only if the others stand for the file, and only if there are any. -/
structure HasGlobs (file dir : Path) (override : Entries) : Prop where
  files : AreGlobs file (some dir) (files override)
  excluded : globsFit (Override.files override) file (some dir) = .ok true →
    (excluded override).isTrue = true → AreGlobs file (some dir) (Override.excluded override)

/-- What stands for the options of an override. -/
def options (override : Entries) : Value := (override.get? "options").getD (.map [])

/-- An override that can be applied for a file: a mapping with globs that can be tried and, if they
stand for the file, with options that can be set. -/
def Fits (file dir : Path) (override : Value) : Prop :=
  ∃ entries, override = .map entries ∧ HasGlobs file dir entries ∧
    (applies entries file dir = .ok true → AreOptions (options entries))

end Override

/-- What stands for the overrides of an options file. -/
def overridesOf (content : Entries) : Value := (content.get? "overrides").getD (.list [])

end ProjectOptions

end TwigLayout
