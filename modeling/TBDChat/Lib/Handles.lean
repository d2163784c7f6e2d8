import Mathlib.Data.Finset.Basic

/-!
# Handles that are handed out and given back

A system hands out handles of its own choice and takes them back.  Which of them are open is
found from the order of the moves alone.
-/

namespace TBDChat.Handles

/-- A handle is handed out, or given back. -/
inductive Move (α : Type) where
  | opened (a : α)
  | closed (a : α)
  deriving DecidableEq

variable {α : Type} [DecidableEq α]

/-- What is open after some moves. -/
def after : List (Move α) → Finset α → Finset α
  | [], held => held
  | .opened a :: ms, held => after ms (insert a held)
  | .closed a :: ms, held => after ms (held.erase a)

/-- Whatever is handed out is not open at the time. -/
def Fresh : List (Move α) → Finset α → Prop
  | [], _ => True
  | .opened a :: ms, held => a ∉ held ∧ Fresh ms (insert a held)
  | .closed a :: ms, held => Fresh ms (held.erase a)

instance Fresh.decidable : (ms : List (Move α)) → (held : Finset α) → Decidable (Fresh ms held)
  | [], _ => .isTrue trivial
  | .opened a :: ms, held =>
    have := decidable ms (insert a held)
    inferInstanceAs (Decidable (a ∉ held ∧ Fresh ms (insert a held)))
  | .closed a :: ms, held => decidable ms (held.erase a)

end TBDChat.Handles
