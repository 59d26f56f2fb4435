import TwigLayout.Proofs.Placeholder.Token
import TwigLayout.Proofs.Text.Runs

/-!
# Leaked tokens

Tokens are built by `Table.tokenOf` and looked for by `readLeak`, and neither mentions the other.
Each field of a token is a run of characters that the underscore after it is not one of, so reading
stops where building did (`readLeak_tokenOf`). A scan may begin an earlier finding that swallows the
first characters of a token, but it cannot come out without any finding (`exists_found_of_read`): no
text with a token in it passes (`leaks_ne_nil`).
-/

namespace TwigLayout

open Text

namespace Text

/-- A scan of a text with a place where the reader reads something finds something, there or
before. -/
theorem exists_found_of_read {α : Type} {read : Reader α} {t : Text} (hne : t ≠ [])
    (h : ∀ last, read last t ≠ none) (a : Text) (last : Option Char) :
    ∃ value old, .found value old ∈ scanFrom read 0 last (a ++ t) := by
  induction a generalizing last with
  | nil =>
    obtain ⟨c, t, rfl⟩ := List.exists_cons_of_ne_nil hne
    obtain ⟨finding, hf⟩ := Option.ne_none_iff_exists'.mp (h last)
    rw [List.nil_append, scanFrom, hf]
    exact ⟨_, _, List.mem_cons_self⟩
  | cons c a ih =>
    rw [List.cons_append, scanFrom]
    cases read last (c :: (a ++ t)) with
    | some finding => exact ⟨_, _, List.mem_cons_self⟩
    | none =>
      obtain ⟨value, old, hm⟩ := ih (some c)
      exact ⟨value, old, List.mem_cons_of_mem _ hm⟩

theorem locate_ne_nil {α : Type} {value : α} {old : Text} {pieces : List (Piece α)} {i : Nat}
    (h : .found value old ∈ pieces) : locate i pieces ≠ [] := by
  fun_induction locate i pieces with
  | case1 => exact absurd h List.not_mem_nil
  | case2 i c pieces ih => exact ih (by simpa using h)
  | case3 => exact List.cons_ne_nil _ _

theorem isDecimal_of_isDigit {c : Char} (h : c.isDigit = true) : isDecimal c = true := by
  have hc : 48 ≤ c.toNat ∧ c.toNat ≤ 57 := by
    simpa [Char.isDigit, UInt32.le_iff_toNat_le] using h
  have hall : ∀ n < 10, Tables.holds Tables.decimalDigit (48 + n) = true := by decide
  have hn := hall (c.toNat - 48) (by omega)
  rwa [Nat.add_sub_cancel' hc.1] at hn

end Text

namespace Placeholder

theorem Kind.isUpper_label (k : Kind) : ∀ c ∈ k.label, c.isUpper = true := by
  cases k <;> exact List.all_eq_true.mp (by decide)

theorem isDecimal_of_mem_toDigits {c : Char} {n : Nat} (h : c ∈ Nat.toDigits 10 n) :
    isDecimal c = true :=
  isDecimal_of_isDigit (Nat.isDigit_of_mem_toDigits (by decide) (by decide) h)

/-- What is looked for reads what is given out. -/
theorem readLeak_tokenOf (k : Kind) (index : Nat) {suffix : Text} (hs : IsSuffix suffix)
    (last : Option Char) (rest : Text) :
    readLeak last (Table.tokenOf k.label index suffix ++ rest) = some ((), rest) := by
  have hlabel : k.label.isEmpty = false := by simpa using k.label_solid.1
  have hdigits : (Nat.toDigits 10 index).isEmpty = false := by simp
  have htoken : Table.tokenOf k.label index suffix ++ rest = "__TWIG_CS_".toList ++
      (k.label ++ '_' :: (Nat.toDigits 10 index ++ '_' :: (suffix ++ '_' :: '_' :: rest))) := by
    unfold Table.tokenOf
    generalize "__TWIG_CS_".toList = mark
    simp only [List.append_assoc, List.cons_append, List.nil_append]
  have htake : (suffix ++ '_' :: '_' :: rest).take 8 = suffix := by rw [← hs.1, List.take_left]
  have hdrop : (suffix ++ '_' :: '_' :: rest).drop 8 = ['_', '_'] ++ rest := by
    rw [← hs.1, List.drop_left]
    rfl
  have hall : suffix.all isSuffixChar = true := List.all_eq_true.mpr hs.2
  have hunder : ∀ s, after? ['_'] ('_' :: s) = some s := after?_append ['_']
  unfold readLeak
  rw [htoken, after?_append]
  simp only [Option.bind_eq_bind, Option.bind_some,
    takeWhile_append_cons k.isUpper_label (c := '_') (by decide),
    dropWhile_append_cons k.isUpper_label (c := '_') (by decide), hlabel, hunder,
    takeWhile_append_cons (fun _ => isDecimal_of_mem_toDigits) (c := '_') (by decide),
    dropWhile_append_cons (fun _ => isDecimal_of_mem_toDigits) (c := '_') (by decide), hdigits,
    htake, hdrop, hs.1, hall, after?_append]
  rfl

/-- A text in which a token occurs has a leak. -/
theorem leaks_ne_nil {k : Kind} {index : Nat} {suffix s : Text} (hs : IsSuffix suffix)
    (h : occursIn (Table.tokenOf k.label index suffix) s = true) : leaks s ≠ [] := by
  obtain ⟨a, rest, rfl⟩ := occursIn_iff.mp h
  have hread : ∀ last, readLeak last (Table.tokenOf k.label index suffix ++ rest) ≠ none := by
    intro last
    rw [readLeak_tokenOf k index hs]
    exact Option.some_ne_none _
  have hne : Table.tokenOf k.label index suffix ++ rest ≠ [] := by
    rw [tokenOf_eq]
    exact List.cons_ne_nil _ _
  obtain ⟨value, old, hm⟩ := exists_found_of_read hne hread a none
  rw [List.append_assoc]
  exact fun hnil => locate_ne_nil hm (List.map_eq_nil_iff.mp hnil)

end Placeholder

end TwigLayout
