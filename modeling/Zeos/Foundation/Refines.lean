import Zeos.Foundation.Exec

/-! # Refinement of failing computations

A concrete computation refines an abstract one when it has the same outcome up
to a relation on results. Some failures of the abstract computation mean that
it promises nothing; whatever the concrete one does then is allowed.
-/

namespace Foundation

variable {ε α β γ δ : Type}

def Refines (Undefined : ε → Prop) (Related : α → β → Prop)
    (concrete : Except ε α) (abstract : Except ε β) : Prop :=
  match abstract with
  | .error failure => Undefined failure ∨ concrete = .error failure
  | .ok result => ∃ value, concrete = .ok value ∧ Related value result

namespace Refines

variable {Undefined : ε → Prop} {Related : α → β → Prop} {Later : γ → δ → Prop}

theorem ok {value : α} {result : β} (related : Related value result) :
    Refines Undefined Related (.ok value) (.ok result) :=
  ⟨value, rfl, related⟩

theorem error (failure : ε) : Refines Undefined Related (.error failure) (.error failure) :=
  .inr rfl

theorem undefined {concrete : Except ε α} {failure : ε} (undefined : Undefined failure) :
    Refines Undefined Related concrete (.error failure) :=
  .inl undefined

theorem bind {concrete : Except ε α} {abstract : Except ε β} {next : α → Except ε γ}
    {nextAbstract : β → Except ε δ} (first : Refines Undefined Related concrete abstract)
    (rest : ∀ value result, Related value result →
      Refines Undefined Later (next value) (nextAbstract result)) :
    Refines Undefined Later (concrete >>= next) (abstract >>= nextAbstract) := by
  cases abstract with
  | error failure =>
      rcases first with undefined | failed
      · exact .inl undefined
      · rw [failed]
        exact .inr rfl
  | ok result =>
      rcases first with ⟨value, finished, related⟩
      rw [finished]
      exact rest value result related

theorem countedLoop {body : Nat → α → Except ε α} {abstractBody : Nat → β → Except ε β}
    (step : ∀ index value result, Related value result →
      Refines Undefined Related (body index value) (abstractBody index result))
    (start count : Nat) {value : α} {result : β} (related : Related value result) :
    Refines Undefined Related (Foundation.countedLoop body start count value)
      (Foundation.countedLoop abstractBody start count result) := by
  induction count generalizing start value result with
  | zero => exact .ok related
  | succ count induction =>
      rw [countedLoop_succ, countedLoop_succ]
      exact (step start value result related).bind fun _ _ afterFirst =>
        induction (start + 1) afterFirst

theorem of_ok {concrete : Except ε α} {abstract : Except ε β} {result : β}
    (refines : Refines Undefined Related concrete abstract) (finished : abstract = .ok result) :
    ∃ value, concrete = .ok value ∧ Related value result := by
  subst finished
  exact refines

/-- Where the abstract computation does not fail in an undefined way, the
concrete one has the same failures. -/
theorem of_defined {concrete : Except ε α} {abstract : Except ε β}
    (refines : Refines Undefined Related concrete abstract)
    (defined : ∀ failure, abstract = .error failure → ¬Undefined failure) :
    (∀ value, concrete = .ok value → ∃ result, abstract = .ok result ∧ Related value result) ∧
      ∀ failure, concrete = .error failure ↔ abstract = .error failure := by
  cases abstract with
  | error failure =>
      rcases refines with undefined | failed
      · exact absurd undefined (defined failure rfl)
      · rw [failed]
        simp
  | ok result =>
      rcases refines with ⟨value, finished, related⟩
      rw [finished]
      constructor
      · intro other equal
        cases equal
        exact ⟨result, rfl, related⟩
      · simp

end Refines

end Foundation
