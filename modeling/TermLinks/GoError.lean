import Mathlib.Tactic.Common

namespace TermLinks

theorem bind_ok_iff {ε α β : Type} {x : Except ε α} {f : α → Except ε β} {b : β} :
    (x >>= f) = .ok b ↔ ∃ a, x = .ok a ∧ f a = .ok b := by
  cases x with
  | error e => simp [bind, Except.bind]
  | ok a => simp [bind, Except.bind]

/-- `fmt.Errorf` of a text before an error. -/
def wrap {α : Type} (context : String) : Except String α → Except String α
  | .ok a => .ok a
  | .error e => .error (context ++ e)

theorem wrap_eq_ok {α : Type} {context : String} {x : Except String α} {a : α} :
    wrap context x = .ok a ↔ x = .ok a := by
  cases x with
  | error e => simp [wrap]
  | ok b => simp [wrap]

end TermLinks
