import Zeos.Foundation.TransitionSystem

/-! # Potentials

What the steps of a run cost is paid from a potential of the states and from credits
that single steps bring in.
-/

namespace Foundation

namespace TransitionSystem

variable {State Label : Type} {system : TransitionSystem State Label}

theorem Run.paid {first last : State} {history : List (Transition State Label)}
    {Invariant : State → Prop} {cost credit : Transition State Label → Nat}
    {potential : State → Nat} (run : system.Run first history last) (initially : Invariant first)
    (pays : ∀ transition ∈ history,
      system.step transition.before transition.label transition.after →
      Invariant transition.before → Invariant transition.after ∧
        cost transition + potential transition.after ≤
          potential transition.before + credit transition) :
    Invariant last ∧ (history.map cost).sum + potential last ≤
      potential first + (history.map credit).sum := by
  induction run with
  | nil => exact ⟨initially, by simp⟩
  | @snoc history middle label last earlier step induction =>
      rcases induction fun transition member => pays transition (List.mem_append_left _ member)
        with ⟨invariant, paid⟩
      rcases pays ⟨middle, label, last⟩ (by simp) step invariant with ⟨later, here⟩
      refine ⟨later, ?_⟩
      simp only [List.map_append, List.sum_append, List.map_cons, List.map_nil, List.sum_cons,
        List.sum_nil]
      dsimp only at here
      omega

theorem sum_indicator (history : List (Transition State Label))
    (p : Transition State Label → Bool) (weight : Nat) :
    (history.map fun transition => if p transition then weight else 0).sum =
      weight * history.countP p := by
  induction history with
  | nil => simp
  | cons transition rest induction =>
      rw [List.map_cons, List.sum_cons, induction, List.countP_cons]
      by_cases counted : p transition = true
      · rw [if_pos counted, if_pos counted]
        ring
      · rw [if_neg counted, if_neg counted]
        ring

end TransitionSystem

end Foundation
