import Zeos.Foundation.TransitionSystem

/-! # Resource pools

A pool of resources hands out the least one that is not taken and takes back what
it has handed out. Whatever is not taken will be handed out again.
-/

namespace Foundation

inductive PoolCall (α : Type)
  | alloc (result : Option α)
  | free (item : α)

variable {α : Type} [LinearOrder α]

def Least (candidates : Finset α) : Option α → Prop
  | some item => item ∈ candidates ∧ ∀ other ∈ candidates, item ≤ other
  | none => candidates = ∅

theorem Least.unique {candidates : Finset α} {result other : Option α}
    (least : Least candidates result) (again : Least candidates other) : result = other := by
  cases result with
  | none =>
      cases other with
      | none => rfl
      | some item =>
          have member := again.1
          rw [show candidates = ∅ from least] at member
          exact absurd member (Finset.notMem_empty item)
  | some item =>
      cases other with
      | none =>
          have member := least.1
          rw [show candidates = ∅ from again] at member
          exact absurd member (Finset.notMem_empty item)
      | some second =>
          exact congrArg some (le_antisymm (least.2 second again.1) (again.2 item least.1))

/-- The candidates with fewer than `count` below them. -/
def lowest (candidates : Finset α) (count : Nat) : Finset α :=
  candidates.filter fun item => (candidates.filter fun other => other < item).card < count

theorem lowest_zero (candidates : Finset α) : lowest candidates 0 = ∅ := by
  simp [lowest]

theorem lowest_succ {candidates : Finset α} {item : α} (least : Least candidates (some item))
    (count : Nat) :
    lowest candidates (count + 1) = insert item (lowest (candidates.erase item) count) := by
  ext other
  rw [lowest, lowest, Finset.mem_insert, Finset.mem_filter, Finset.mem_filter, Finset.mem_erase]
  by_cases same : other = item
  · subst same
    have none : (candidates.filter fun below => below < other) = ∅ :=
      Finset.filter_eq_empty_iff.mpr fun below member => not_lt.mpr (least.2 below member)
    rw [none]
    simp [least.1]
  · rw [or_iff_right same, and_assoc, and_iff_right same]
    refine and_congr_right fun member => ?_
    have lower : item < other := lt_of_le_of_ne (least.2 other member) (Ne.symm same)
    have split : (candidates.filter fun below => below < other) =
        insert item ((candidates.erase item).filter fun below => below < other) := by
      rw [Finset.filter_erase, Finset.insert_erase]
      exact Finset.mem_filter.mpr ⟨least.1, lower⟩
    have new : item ∉ (candidates.erase item).filter fun below => below < other :=
      fun listed => Finset.notMem_erase item _ (Finset.mem_filter.mp listed).1
    rw [split, Finset.card_insert_of_notMem new]
    omega

def withResult (taken : Finset α) : Option α → Finset α
  | some item => insert item taken
  | none => taken

def resourcePool (members : Finset α) : TransitionSystem (Finset α) (PoolCall α) where
  init taken := taken = ∅
  step taken call next :=
    match call with
    | .alloc result => Least (members \ taken) result ∧ next = withResult taken result
    | .free item => item ∈ taken ∧ next = taken.erase item

variable {members taken : Finset α}

def Obtains {State : Type} (system : TransitionSystem State (PoolCall α)) (state : State)
    (item : α) : Prop :=
  ∃ history last, ∃ results : List (Option α), system.Run state history last ∧
    history.map Transition.label = results.map PoolCall.alloc ++ [.alloc (some item)]

theorem obtains_of_candidate {item : α} (candidate : item ∈ members \ taken) :
    Obtains (resourcePool members) taken item := by
  generalize remaining : (members \ taken).card = count
  induction count using Nat.strongRecOn generalizing taken with
  | ind count induction =>
      have nonempty : (members \ taken).Nonempty := ⟨item, candidate⟩
      let least := (members \ taken).min' nonempty
      have member : least ∈ members \ taken := Finset.min'_mem _ nonempty
      have step : (resourcePool members).step taken (.alloc (some least)) (insert least taken) :=
        ⟨⟨member, fun other => Finset.min'_le _ other⟩, rfl⟩
      have first := TransitionSystem.Run.single step
      by_cases here : item = least
      · rw [← here] at first
        exact ⟨_, _, [], first, rfl⟩
      · have shrinks : members \ insert least taken = (members \ taken).erase least :=
          Finset.sdiff_insert members taken least
        have fewer : (members \ insert least taken).card < count := by
          rw [shrinks, ← remaining]
          exact Finset.card_erase_lt_of_mem member
        have still : item ∈ members \ insert least taken := by
          rw [shrinks]
          exact Finset.mem_erase.mpr ⟨here, candidate⟩
        rcases induction _ fewer still rfl with ⟨history, last, results, rest, labels⟩
        refine ⟨_, last, some least :: results, first.append rest, ?_⟩
        rw [List.map_append, labels]
        rfl

/-- An implementation that answers every attempt like the pool obtains what the
pool obtains. -/
theorem Obtains.implemented {State : Type} {system : TransitionSystem State (PoolCall α)}
    {Invariant : State → Prop} {abstraction : State → Finset α}
    (answers : ∀ state result, Invariant state → Least (members \ abstraction state) result →
      ∃ next, system.step state (.alloc result) next ∧ Invariant next ∧
        abstraction next = withResult (abstraction state) result)
    {state : State} (holds : Invariant state) {item : α}
    (obtains : Obtains (resourcePool members) (abstraction state) item) :
    Obtains system state item := by
  have follows : ∀ {history last} {results : List (Option α)},
      (resourcePool members).Run (abstraction state) history last →
      history.map Transition.label = results.map PoolCall.alloc →
      ∃ steps final, system.Run state steps final ∧ Invariant final ∧ abstraction final = last ∧
        steps.map Transition.label = results.map PoolCall.alloc := by
    intro history last results run
    induction run generalizing results with
    | nil =>
        intro labels
        exact ⟨[], state, .nil, holds, rfl, labels⟩
    | @snoc earlier middle label last run step induction =>
        intro labels
        rw [List.map_append] at labels
        rcases List.append_eq_map_iff.mp labels with ⟨front, back, split, before, after⟩
        cases back with
        | nil => cases after
        | cons result others =>
            rcases List.cons.inj after with ⟨same, none⟩
            have attempt : label = .alloc result := same.symm
            cases others with
            | cons _ _ => cases none
            | nil =>
                rcases induction before.symm with ⟨steps, final, followed, holds, here, named⟩
                subst split
                rw [attempt, ← here] at step
                rcases answers final result holds step.1 with ⟨next, taken, holds, there⟩
                refine ⟨_, next, .snoc followed taken, holds, there.trans step.2.symm, ?_⟩
                rw [List.map_append, named, List.map_append]
                rfl
  rcases obtains with ⟨history, last, results, run, labels⟩
  have attempts : history.map Transition.label = (results ++ [some item]).map PoolCall.alloc := by
    rw [labels, List.map_append]
    rfl
  rcases follows run attempts with ⟨steps, final, followed, -, -, named⟩
  refine ⟨steps, final, results, followed, ?_⟩
  rw [named, List.map_append]
  rfl

end Foundation
