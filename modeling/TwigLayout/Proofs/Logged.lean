import TwigLayout.Log

/-!
# Successful computations

What the parts of a computation gave, if the whole of it did not fail, and computations that give a
value without a warning (`Logged.Quiet`).
-/

namespace TwigLayout

variable {α β : Type}

theorem bind_eq_ok {x : Except Fault α} {f : α → Except Fault β} {b : β} :
    (x >>= f) = .ok b ↔ ∃ a, x = .ok a ∧ f a = .ok b := by
  cases x with
  | error e => simp [bind, Except.bind]
  | ok a => simp [bind, Except.bind]

namespace Logged

theorem result_bind (x : Logged α) (f : α → Logged β) :
    (x >>= f).result = x.result >>= fun a => (f a).result := by
  obtain ⟨r, notes⟩ := x
  cases r <;> rfl

theorem result_bind_eq_ok {x : Logged α} {f : α → Logged β} {b : β} :
    (x >>= f).result = .ok b ↔ ∃ a, x.result = .ok a ∧ (f a).result = .ok b := by
  obtain ⟨r, notes⟩ := x
  cases r with
  | error e => simp [bind]
  | ok a => simp [bind]

/-- What is done next makes a difference only for values that are there. -/
theorem bind_congr {x : Logged α} {f g : α → Logged β} (h : ∀ a, x.result = .ok a → f a = g a) :
    x >>= f = x >>= g := by
  obtain ⟨r, notes⟩ := x
  cases r with
  | error e => rfl
  | ok a => simp only [bind, h a rfl]

@[simp] theorem result_pure (a : α) : (pure a : Logged α).result = .ok a := rfl

/-- The computation gives a value, and all its notes are for debugging. -/
structure Quiet (x : Logged α) (a : α) : Prop where
  result : x.result = .ok a
  log : ∀ n ∈ x.log, n.level = .debug

theorem quiet_pure (a : α) : Quiet (pure a) a := ⟨rfl, fun _ h => absurd h List.not_mem_nil⟩

theorem quiet_debug (source : Source) (message : String) : Quiet (debug source message) () :=
  ⟨rfl, List.forall_mem_singleton.mpr rfl⟩

theorem quiet_lift {x : Except Fault α} {a : α} (h : x = .ok a) : Quiet (liftM x : Logged α) a :=
  ⟨h, fun _ hn => absurd hn List.not_mem_nil⟩

theorem Quiet.bind {x : Logged α} {f : α → Logged β} {a : α} {b : β} (hx : Quiet x a)
    (hf : Quiet (f a) b) : Quiet (x >>= f) b := by
  obtain ⟨r, notes⟩ := x
  obtain rfl : r = .ok a := hx.result
  exact ⟨hf.result, List.forall_mem_append.mpr ⟨hx.log, hf.log⟩⟩

end Logged

end TwigLayout
