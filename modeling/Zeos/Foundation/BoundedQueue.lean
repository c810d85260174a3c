import Mathlib

/-! # Bounded queues

What the calls of a queue of bounded capacity answer, over whole histories of calls,
and the simulation rule for objects that claim to be one.
-/

namespace Foundation

universe u v

inductive QueueCall (α : Type u)
  | push (item : α)
  | pop
  | front
  | empty
  | full
  | count

inductive QueueAnswer (α : Type u)
  | done
  | item (value : α)
  | flag (value : Bool)
  | number (value : Nat)

namespace BoundedQueue

variable {α : Type u} {σ : Type v}

def after (capacity : Nat) (items : List α) : QueueCall α → List α
  | .push item => if items.length < capacity then items ++ [item] else items
  | .pop => items.tail
  | _ => items

def Answers (capacity : Nat) (items : List α) : QueueCall α → QueueAnswer α → Prop
  | .push _, answer => answer = .done
  | .pop, answer => answer = .done
  | .front, answer => ∃ value, answer = .item value ∧ ∀ oldest ∈ items.head?, value = oldest
  | .empty, answer => answer = .flag (items.length == 0)
  | .full, answer => answer = .flag (items.length == capacity)
  | .count, answer => answer = .number items.length

/-- A history of calls with their answers, from given contents. -/
def Serves (capacity : Nat) : List α → List (QueueCall α × QueueAnswer α) → Prop
  | _, [] => True
  | items, (call, answer) :: later =>
      Answers capacity items call answer ∧ Serves capacity (after capacity items call) later

def history (perform : σ → QueueCall α → σ × QueueAnswer α) :
    σ → List (QueueCall α) → List (QueueCall α × QueueAnswer α) × σ
  | state, [] => ([], state)
  | state, call :: calls =>
      let (next, answer) := perform state call
      let (later, last) := history perform next calls
      ((call, answer) :: later, last)

/-- The simulation rule: an object whose calls keep an invariant and act on its contents as
those of a queue is one. -/
theorem serves_of_simulates {capacity : Nat} {perform : σ → QueueCall α → σ × QueueAnswer α}
    (Invariant : σ → Prop) (contents : σ → List α)
    (keeps : ∀ state call, Invariant state → Invariant (perform state call).1)
    (simulates : ∀ state call, Invariant state →
      Answers capacity (contents state) call (perform state call).2 ∧
        contents (perform state call).1 = after capacity (contents state) call)
    {state : σ} (initially : Invariant state) (calls : List (QueueCall α)) :
    Serves capacity (contents state) (history perform state calls).1 ∧
      Invariant (history perform state calls).2 := by
  induction calls generalizing state with
  | nil => exact ⟨trivial, initially⟩
  | cons call calls induction =>
      rcases simulates state call initially with ⟨answered, contentsAfter⟩
      rcases induction (keeps state call initially) with ⟨later, atEnd⟩
      rw [contentsAfter] at later
      exact ⟨⟨answered, later⟩, atEnd⟩

end BoundedQueue

end Foundation
