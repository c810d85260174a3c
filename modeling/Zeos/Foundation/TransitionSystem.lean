import Mathlib

/-! # Labelled transition systems

Runs record their transitions, so that properties of whole histories can be
stated as properties of the recorded list.
-/

namespace Foundation

structure TransitionSystem (State Label : Type) where
  init : State → Prop
  step : State → Label → State → Prop

/-- One recorded step. -/
structure Transition (State Label : Type) where
  before : State
  label : Label
  after : State

def Transition.map {State Other Label : Type} (abstraction : State → Other)
    (transition : Transition State Label) : Transition Other Label :=
  ⟨abstraction transition.before, transition.label, abstraction transition.after⟩

namespace TransitionSystem

variable {State Label : Type} (system : TransitionSystem State Label)

/-- `Run first history last`: the steps of `history`, oldest first, lead from
`first` to `last`. -/
inductive Run (first : State) : List (Transition State Label) → State → Prop
  | nil : Run first [] first
  | snoc {history middle label last} :
      Run first history middle → system.step middle label last →
      Run first (history ++ [⟨middle, label, last⟩]) last

/-- `last` is reachable by the steps of `history`. -/
def Reaches (history : List (Transition State Label)) (last : State) : Prop :=
  ∃ first, system.init first ∧ system.Run first history last

def Reachable (state : State) : Prop := ∃ history, system.Reaches history state

variable {system}

namespace Run

variable {first middle last : State} {history : List (Transition State Label)}

theorem single {label : Label} (step : system.step first label last) :
    system.Run first [⟨first, label, last⟩] last :=
  .snoc .nil step

theorem append {rest : List (Transition State Label)} (run : system.Run first history middle)
    (continued : system.Run middle rest last) : system.Run first (history ++ rest) last := by
  induction continued with
  | nil => simpa using run
  | snoc _ step induction =>
      rw [← List.append_assoc]
      exact .snoc induction step

theorem step_of_mem (run : system.Run first history last)
    {transition : Transition State Label} (member : transition ∈ history) :
    system.step transition.before transition.label transition.after := by
  induction run with
  | nil => cases member
  | snoc _ step induction =>
      rcases List.mem_append.mp member with member | member
      · exact induction member
      · rw [List.mem_singleton] at member
        subst member
        exact step

/-- What the steps of a run preserve holds at its end. The hypothesis on the
steps may use that the transition is recorded in the history. -/
theorem invariant {Invariant : State → Prop} (run : system.Run first history last)
    (initially : Invariant first)
    (preserved : ∀ transition ∈ history,
      system.step transition.before transition.label transition.after →
      Invariant transition.before → Invariant transition.after) :
    Invariant last := by
  induction run with
  | nil => exact initially
  | snoc earlier step induction =>
      have before := induction fun transition member => preserved transition (by simp [member])
      exact preserved ⟨_, _, _⟩ (List.mem_append_right _ (List.mem_singleton_self _)) step before

theorem along {Invariant : State → Prop} (run : system.Run first history last)
    (initially : Invariant first)
    (preserved : ∀ transition ∈ history,
      system.step transition.before transition.label transition.after →
      Invariant transition.before → Invariant transition.after) :
    ∀ transition ∈ history, Invariant transition.before ∧ Invariant transition.after := by
  induction run with
  | nil => simp
  | @snoc history middle label last earlier step induction =>
      have before : ∀ transition ∈ history,
          system.step transition.before transition.label transition.after →
          Invariant transition.before → Invariant transition.after :=
        fun transition member => preserved transition (List.mem_append_left _ member)
      have atMiddle := earlier.invariant initially before
      have here : (⟨middle, label, last⟩ : Transition State Label) ∈
          history ++ [⟨middle, label, last⟩] := by simp
      intro transition member
      rcases List.mem_append.mp member with old | new
      · exact induction before transition old
      · rw [List.mem_singleton.mp new]
        exact ⟨atMiddle, preserved _ here step atMiddle⟩

/-- When the steps that are allowed keep an invariant and are right, and from the
invariant only these are right, the steps of a run are all right exactly when they are
all allowed. -/
theorem right_iff {Invariant : State → Prop} {Right Allowed : Transition State Label → Prop}
    (run : system.Run first history last) (initially : Invariant first)
    (sound : ∀ transition ∈ history,
      system.step transition.before transition.label transition.after →
      Invariant transition.before → Allowed transition →
      Invariant transition.after ∧ Right transition)
    (necessary : ∀ transition ∈ history,
      system.step transition.before transition.label transition.after →
      Invariant transition.before → Right transition → Allowed transition) :
    (∀ transition ∈ history, Right transition) ↔ ∀ transition ∈ history, Allowed transition := by
  suffices both : ((∀ transition ∈ history, Right transition) →
      ∀ transition ∈ history, Allowed transition) ∧
      ((∀ transition ∈ history, Allowed transition) →
        Invariant last ∧ ∀ transition ∈ history, Right transition) from
    ⟨both.1, fun allowed => (both.2 allowed).2⟩
  induction run with
  | nil => simp [initially]
  | @snoc history middle label last earlier step induction =>
      let here : Transition State Label := ⟨middle, label, last⟩
      have listed : here ∈ history ++ [here] := by simp
      have old : ∀ {transition : Transition State Label}, transition ∈ history →
          transition ∈ history ++ [here] := List.mem_append_left _
      have before := induction (fun transition member => sound transition (old member))
        fun transition member => necessary transition (old member)
      constructor
      · intro right transition member
        have allowed := before.1 fun transition member => right transition (old member)
        rcases List.mem_append.mp member with earlier | new
        · exact allowed transition earlier
        · rw [List.mem_singleton.mp new]
          exact necessary here listed step (before.2 allowed).1 (right here listed)
      · intro allowed
        have right := before.2 fun transition member => allowed transition (old member)
        have now := sound here listed step right.1 (allowed here listed)
        refine ⟨now.1, fun transition member => ?_⟩
        rcases List.mem_append.mp member with earlier | new
        · exact right.2 transition earlier
        · rw [List.mem_singleton.mp new]
          exact now.2

theorem of_snoc {transition : Transition State Label}
    (run : system.Run first (history ++ [transition]) last) :
    system.Run first history transition.before ∧
      system.step transition.before transition.label last ∧ transition.after = last := by
  generalize whole : history ++ [transition] = all at run
  cases run with
  | nil => simp at whole
  | snoc earlier step =>
      rcases List.append_inj' whole rfl with ⟨equal, same⟩
      subst equal
      cases same
      exact ⟨earlier, step, rfl⟩

theorem of_nil (run : system.Run first [] last) : first = last := by
  generalize none : ([] : List (Transition State Label)) = history at run
  cases run with
  | nil => rfl
  | snoc => simp at none

theorem split {front back : List (Transition State Label)}
    (run : system.Run first (front ++ back) last) :
    ∃ middle, system.Run first front middle ∧ system.Run middle back last := by
  induction back using List.reverseRec generalizing last with
  | nil => exact ⟨last, by simpa using run, .nil⟩
  | append_singleton rest transition induction =>
      rw [← List.append_assoc] at run
      rcases run.of_snoc with ⟨earlier, step, equal⟩
      rcases induction earlier with ⟨middle, before, after⟩
      subst equal
      exact ⟨middle, before, .snoc after step⟩

theorem around {front back : List (Transition State Label)}
    {transition : Transition State Label}
    (run : system.Run first (front ++ transition :: back) last) :
    system.Run first front transition.before ∧
      system.step transition.before transition.label transition.after ∧
      system.Run transition.after back last := by
  rw [List.append_cons] at run
  rcases run.split with ⟨middle, before, after⟩
  rcases before.of_snoc with ⟨earlier, step, equal⟩
  subst equal
  exact ⟨earlier, step, after⟩

theorem of_cons {transition : Transition State Label}
    (run : system.Run first (transition :: history) last) :
    transition.before = first ∧
      system.step first transition.label transition.after ∧
      system.Run transition.after history last := by
  rcases @around State Label system first last [] history transition run with
    ⟨before, step, after⟩
  have same := before.of_nil
  subst same
  exact ⟨rfl, step, after⟩

/-- A run is mapped to a run of another system when, from states that satisfy an
invariant, steps are mapped to steps. -/
theorem map {Other : Type} {target : TransitionSystem Other Label} {abstraction : State → Other}
    {Invariant : State → Prop} (run : system.Run first history last)
    (initially : Invariant first)
    (simulates : ∀ before label after, Invariant before → system.step before label after →
      Invariant after ∧ target.step (abstraction before) label (abstraction after)) :
    Invariant last ∧ target.Run (abstraction first) (history.map (Transition.map abstraction))
      (abstraction last) := by
  induction run with
  | nil => exact ⟨initially, .nil⟩
  | snoc earlier step induction =>
      rcases induction with ⟨holds, mapped⟩
      rcases simulates _ _ _ holds step with ⟨after, mappedStep⟩
      rw [List.map_append]
      exact ⟨after, .snoc mapped mappedStep⟩

/-- A run of another system is the image of a run when, from states that satisfy an
invariant, each of its steps is the image of one. -/
theorem lift {Other : Type} {target : TransitionSystem Other Label} {abstraction : State → Other}
    {Invariant : State → Prop} {first : State} {other last : Other}
    {history : List (Transition Other Label)} (run : target.Run other history last)
    (same : abstraction first = other) (initially : Invariant first)
    (lifts : ∀ before label after, Invariant before → target.step (abstraction before) label after →
      ∃ next, abstraction next = after ∧ Invariant next ∧ system.step before label next) :
    ∃ lifted state, system.Run first lifted state ∧ Invariant state ∧
      lifted.map (Transition.map abstraction) = history ∧ abstraction state = last := by
  induction run with
  | nil => exact ⟨[], first, .nil, initially, rfl, same⟩
  | snoc earlier step induction =>
      rcases induction with ⟨lifted, middle, lowerRun, holds, mapped, sameMiddle⟩
      subst sameMiddle
      rcases lifts middle _ _ holds step with ⟨next, sameNext, holdsNext, lowerStep⟩
      subst sameNext
      refine ⟨_, next, .snoc lowerRun lowerStep, holdsNext, ?_, rfl⟩
      rw [List.map_append, mapped]
      rfl

end Run

/-- The invariant rule: what holds initially and is preserved by every step
holds in every reachable state. -/
theorem Reachable.invariant {Invariant : State → Prop} {state : State}
    (reachable : system.Reachable state) (initially : ∀ first, system.init first → Invariant first)
    (preserved : ∀ before label after, system.step before label after →
      Invariant before → Invariant after) :
    Invariant state := by
  rcases reachable with ⟨history, first, start, run⟩
  exact run.invariant (initially first start) fun transition _ step =>
    preserved transition.before transition.label transition.after step

theorem Reaches.reachable {history : List (Transition State Label)} {state : State}
    (reaches : system.Reaches history state) : system.Reachable state :=
  ⟨history, reaches⟩

theorem Reachable.step {before after : State} {label : Label}
    (reachable : system.Reachable before) (step : system.step before label after) :
    system.Reachable after := by
  rcases reachable with ⟨history, first, start, run⟩
  exact ⟨_, first, start, .snoc run step⟩

theorem Reaches.along {history : List (Transition State Label)} {state : State}
    (reaches : system.Reaches history state) : ∀ transition ∈ history,
      system.Reachable transition.before ∧ system.Reachable transition.after := by
  rcases reaches with ⟨first, start, run⟩
  have initially : system.Reachable first := ⟨[], first, start, .nil⟩
  exact run.along initially fun _ _ step reachable => reachable.step step

end TransitionSystem

end Foundation
