import Mathlib

/-! # Loops that are left

A loop is given by what one pass of it does, and by nothing where it is left. What it
comes to is shown with an invariant and a variant that every pass lowers.
-/

namespace Foundation

open StateTransition

variable {State : Type*} {pass : State → Option State} {Invariant : State → Prop}

theorem invariant_of_reaches {start middle : State}
    (keeps : ∀ before after, Invariant before → pass before = some after → Invariant after)
    (reaches : Reaches pass start middle) (begins : Invariant start) : Invariant middle := by
  induction reaches with
  | refl => exact begins
  | tail _ next induction => exact keeps _ _ induction next

theorem reaches_goal {Goal : State → Prop} {variant : State → Nat} {start : State}
    (goesOn : ∀ before, Invariant before → ¬Goal before →
      ∃ after, pass before = some after ∧ Invariant after ∧ variant after < variant before)
    (begins : Invariant start) : ∃ middle, Reaches pass start middle ∧ Goal middle ∧
      Invariant middle := by
  induction bound : variant start using Nat.strongRecOn generalizing start with
  | ind rounds induction =>
      by_cases there : Goal start
      · exact ⟨start, Relation.ReflTransGen.refl, there, begins⟩
      · rcases goesOn start begins there with ⟨after, passed, kept, lower⟩
        rcases induction (variant after) (by omega) kept rfl with ⟨middle, reaches, goal, holds⟩
        exact ⟨middle, Relation.ReflTransGen.head passed reaches, goal, holds⟩

theorem exists_mem_eval {variant : State → Nat} {start : State}
    (keeps : ∀ before after, Invariant before → pass before = some after →
      Invariant after ∧ variant after < variant before)
    (begins : Invariant start) : ∃ final ∈ eval pass start, pass final = none ∧
      Invariant final := by
  have goesOn : ∀ before, Invariant before → ¬pass before = none →
      ∃ after, pass before = some after ∧ Invariant after ∧ variant after < variant before := by
    intro before holds left
    rcases Option.ne_none_iff_exists'.mp left with ⟨after, passed⟩
    exact ⟨after, passed, keeps before after holds passed⟩
  rcases reaches_goal goesOn begins with ⟨final, reaches, left, holds⟩
  exact ⟨final, mem_eval.mpr ⟨reaches, left⟩, left, holds⟩

theorem reaches_final {start middle final : State} (reaches : Reaches pass start middle)
    (ends : final ∈ eval pass start) : Reaches pass middle final := by
  rw [reaches_eval reaches] at ends
  exact (mem_eval.mp ends).1

end Foundation
