import TwigLayout.Value.Basic

/-!
# Values of keys

The value of a key after a mapping was set over another one is that of the first, if it has the key
(`Entries.valueAt_setAll`). Keys are compared as mappings compare them, so what is not a number is
a key without a value.
-/

namespace TwigLayout

namespace Value

variable {a b c : Value}

theorem sameKey_iff : a.sameKey b = true ↔ a ≠ .float .nan ∧ a.keyForm = b.keyForm := by
  simp only [sameKey, Bool.and_eq_true, bne_iff_ne, decide_eq_true_eq]

theorem keyForm_eq_nan_iff : a.keyForm = .float .nan ↔ a = .float .nan := by
  cases a with
  | float x =>
    cases hx : x.toInt? with
    | none => simp [keyForm, hx]
    | some i =>
      have hne : x ≠ .nan := by
        rintro rfl
        cases hx
      simp [keyForm, hx, hne]
  | _ => simp [keyForm]

theorem sameKey_symm (h : a.sameKey b = true) : b.sameKey a = true := by
  rw [sameKey_iff] at h ⊢
  obtain ⟨hne, he⟩ := h
  refine ⟨fun hnan => hne ?_, he.symm⟩
  rw [← keyForm_eq_nan_iff, he, hnan]
  rfl

theorem sameKey_trans (hab : a.sameKey b = true) (hbc : b.sameKey c = true) :
    a.sameKey c = true := by
  rw [sameKey_iff] at hab hbc ⊢
  exact ⟨hab.1, hab.2.trans hbc.2⟩

end Value

namespace Entries

/-- The value of a key in a mapping. -/
def valueAt (entries : Entries) (key : Value) : Option Value :=
  (entries.find? fun e => e.1.sameKey key).map (·.2)

/-- No key of a mapping stands twice. -/
def Distinct (entries : Entries) : Prop := entries.Pairwise fun a b => a.1.sameKey b.1 = false

instance (entries : Entries) : Decidable entries.Distinct :=
  inferInstanceAs (Decidable (entries.Pairwise fun a b => a.1.sameKey b.1 = false))

theorem valueAt_cons (e : Value × Value) (entries : Entries) (key : Value) :
    valueAt (e :: entries) key = if e.1.sameKey key then some e.2 else valueAt entries key := by
  unfold valueAt
  rw [List.find?_cons]
  cases e.1.sameKey key <;> rfl

theorem valueAt_eq_none {entries : Entries} {key : Value}
    (h : ∀ e ∈ entries, ¬ e.1.sameKey key = true) : valueAt entries key = none :=
  Option.map_eq_none_iff.mpr (List.find?_eq_none.mpr h)

theorem valueAt_set (k value : Value) (entries : Entries) (key : Value) :
    valueAt (set k value entries) key =
      if k.sameKey key then some value else valueAt entries key := by
  fun_induction set k value entries with
  | case1 => exact valueAt_cons (k, value) [] key
  | case2 e rest he =>
    have hsame : e.1.sameKey key = k.sameKey key :=
      Bool.eq_iff_iff.mpr ⟨Value.sameKey_trans (Value.sameKey_symm he), Value.sameKey_trans he⟩
    rw [valueAt_cons, valueAt_cons, hsame]
    split <;> rfl
  | case3 e rest he ih =>
    rw [valueAt_cons, valueAt_cons, ih]
    by_cases hk : k.sameKey key = true
    · -- an entry that has the key is the one that is set
      have hne : ¬ e.1.sameKey key = true := fun hkey =>
        he (Value.sameKey_trans hkey (Value.sameKey_symm hk))
      rw [if_neg hne, if_pos hk, if_pos hk]
    · rw [if_neg hk, if_neg hk]

/-- Of two mappings set one over the other, the last that has the key counts. -/
theorem valueAt_setAll {other : Entries} (h : other.Distinct) (entries : Entries) (key : Value) :
    valueAt (entries.setAll other) key = (valueAt other key).or (valueAt entries key) := by
  induction other generalizing entries with
  | nil => rfl
  | cons e other ih =>
    obtain ⟨he, hother⟩ := List.pairwise_cons.mp h
    have hset : entries.setAll (e :: other) = (set e.1 e.2 entries).setAll other := rfl
    rw [hset, ih hother, valueAt_set, valueAt_cons]
    by_cases hkey : e.1.sameKey key = true
    · have hnone : valueAt other key = none := valueAt_eq_none fun f hf hfkey =>
        Bool.eq_false_iff.mp (he f hf) (Value.sameKey_trans hkey (Value.sameKey_symm hfkey))
      rw [if_pos hkey, if_pos hkey, hnone, Option.none_or, Option.some_or]
    · rw [if_neg hkey, if_neg hkey]

/-- A key that is taken out has no value any more, and all others keep theirs. -/
theorem valueAt_erase (entries : Entries) (name : String) (key : Value) :
    valueAt (entries.erase name) key =
      if key = .str name then none else valueAt entries key := by
  have hsame : (Value.str name).sameKey key = true ↔ key = .str name :=
    ⟨fun h => Value.sameKey_str_iff.mp (Value.sameKey_symm h),
      fun h => Value.sameKey_symm (Value.sameKey_str_iff.mpr h)⟩
  induction entries with
  | nil => exact (ite_self none).symm
  | cons e entries ih =>
    unfold erase at ih ⊢
    rw [List.filter_cons, valueAt_cons]
    by_cases he : e.1 = .str name
    · rw [he, bne_self_eq_false, if_neg Bool.false_ne_true, ih]
      split
      · rfl
      · next hkey => rw [if_neg (mt hsame.mp hkey)]
    · rw [if_pos (bne_iff_ne.mpr he), valueAt_cons, ih]
      split
      · next hkey =>
        have hname : key ≠ .str name := by
          rintro rfl
          exact he (Value.sameKey_str_iff.mp hkey)
        rw [if_neg hname]
      · rfl

end Entries

end TwigLayout
