import Zeos.System

/-! # Places in the queues

How the checked sequences change when a task moves, and what it means that the
states of the tasks agree with their places. On sequences that are used properly
the list routines have a plain result.
-/

namespace Zeos

open Foundation

/-! ## Moves -/

namespace Sequences

variable (sequences : Sequences Queue TaskId)

def toTail (t : TaskId) (queue : Queue) : Sequences Queue TaskId :=
  (sequences.remove t).set queue ((sequences.remove t).elements queue ++ [t])

def toFront (t : TaskId) (queue : Queue) : Sequences Queue TaskId :=
  (sequences.remove t).set queue (t :: (sequences.remove t).elements queue)

theorem remove_unlinked {sequences : Sequences Queue TaskId} {t : TaskId}
    (unlinked : ¬sequences.Linked t) : sequences.remove t = sequences := by
  have same : (sequences.remove t).elements = sequences.elements := by
    funext queue
    exact List.erase_of_not_mem fun member => unlinked ⟨queue, member⟩
  exact congrArg Sequences.mk same

end Sequences

section Elements

variable {sequences : Sequences Queue TaskId} {t : TaskId} {queue other : Queue}

theorem Sequences.toTail_unlinked (unlinked : ¬sequences.Linked t) :
    (sequences.toTail t queue).elements other =
      if other = queue then sequences.elements queue ++ [t] else sequences.elements other := by
  rw [toTail, remove_unlinked unlinked, set_elements]

theorem Sequences.toFront_unlinked (unlinked : ¬sequences.Linked t) :
    (sequences.toFront t queue).elements other =
      if other = queue then t :: sequences.elements queue else sequences.elements other := by
  rw [toFront, remove_unlinked unlinked, set_elements]

theorem Sequences.toTail_elements_of_ne (different : other ≠ queue)
    (absent : t ∉ sequences.elements other) :
    (sequences.toTail t queue).elements other = sequences.elements other := by
  rw [toTail, set_elements, if_neg different, remove_elements, List.erase_of_not_mem absent]

theorem Sequences.toFront_elements_of_ne (different : other ≠ queue)
    (absent : t ∉ sequences.elements other) :
    (sequences.toFront t queue).elements other = sequences.elements other := by
  rw [toFront, set_elements, if_neg different, remove_elements, List.erase_of_not_mem absent]

end Elements

def stateWithin : Queue → ProcessState
  | .freequeue => .run
  | .readyqueue => .ready
  | .keyboardqueue => .blocked
  | .blocked _ => .blocked

/-- Every task is in at most one place and has the state that goes with it. -/
structure Placed (state : TaskId → ProcessState) (sequences : Sequences Queue TaskId) :
    Prop where
  nodup : ∀ queue, (sequences.elements queue).Nodup
  apart : ∀ {left right t}, t ∈ sequences.elements left → t ∈ sequences.elements right →
    left = right
  within : ∀ {queue t}, t ∈ sequences.elements queue → state t = stateWithin queue
  outside : ∀ {t}, ¬sequences.Linked t → state t = .run

namespace Placed

variable {state later : TaskId → ProcessState} {sequences : Sequences Queue TaskId}
  {t : TaskId}

theorem not_elsewhere (placed : Placed state sequences) {here there : Queue}
    (member : t ∈ sequences.elements here) (different : there ≠ here) :
    t ∉ sequences.elements there := fun elsewhere => different (placed.apart elsewhere member)

theorem mem_remove (placed : Placed state sequences) {other : TaskId} {queue : Queue} :
    other ∈ (sequences.remove t).elements queue ↔
      other ≠ t ∧ other ∈ sequences.elements queue := by
  rw [Sequences.remove_elements, (placed.nodup queue).mem_erase_iff]

theorem remove_not_linked (placed : Placed state sequences) : ¬(sequences.remove t).Linked t := by
  intro linked
  rcases linked with ⟨queue, member⟩
  exact (placed.mem_remove.mp member).1 rfl

theorem remove (placed : Placed state sequences) (others : ∀ other, other ≠ t →
    later other = state other) (here : later t = .run) : Placed later (sequences.remove t) where
  nodup queue := (placed.nodup queue).erase t
  apart inLeft inRight :=
    placed.apart (placed.mem_remove.mp inLeft).2 (placed.mem_remove.mp inRight).2
  within member := by
    rcases placed.mem_remove.mp member with ⟨different, member⟩
    rw [others _ different]
    exact placed.within member
  outside := by
    intro other unlinked
    by_cases same : other = t
    · rw [same, here]
    · rw [others other same]
      refine placed.outside fun linked => unlinked ?_
      rcases linked with ⟨queue, member⟩
      exact ⟨queue, placed.mem_remove.mpr ⟨same, member⟩⟩

theorem insert (placed : Placed state sequences) (unlinked : ¬sequences.Linked t)
    {queue : Queue} {contents : List TaskId}
    (inserted : List.Perm contents (t :: sequences.elements queue))
    (others : ∀ other, other ≠ t → later other = state other)
    (here : later t = stateWithin queue) : Placed later (sequences.set queue contents) := by
  have notInside : ∀ list, t ∉ sequences.elements list := fun list member =>
    unlinked ⟨list, member⟩
  have mem_set : ∀ {other list}, other ∈ (sequences.set queue contents).elements list ↔
      (other = t ∧ list = queue) ∨ other ∈ sequences.elements list := by
    intro other list
    rw [Sequences.set_elements]
    by_cases same : list = queue
    · subst same
      rw [if_pos rfl, inserted.mem_iff, List.mem_cons]
      tauto
    · rw [if_neg same]
      tauto
  refine ⟨?_, ?_, ?_, ?_⟩
  · intro list
    rw [Sequences.set_elements]
    by_cases same : list = queue
    · rw [if_pos same, inserted.nodup_iff]
      exact List.nodup_cons.mpr ⟨notInside queue, placed.nodup queue⟩
    · rw [if_neg same]
      exact placed.nodup list
  · intro left right other inLeft inRight
    rcases mem_set.mp inLeft with ⟨isNew, atLeft⟩ | oldLeft
    · rcases mem_set.mp inRight with ⟨-, atRight⟩ | oldRight
      · rw [atLeft, atRight]
      · exact absurd (isNew ▸ oldRight) (notInside right)
    · rcases mem_set.mp inRight with ⟨isNew, -⟩ | oldRight
      · exact absurd (isNew ▸ oldLeft) (notInside left)
      · exact placed.apart oldLeft oldRight
  · intro list other member
    rcases mem_set.mp member with ⟨isNew, here'⟩ | old
    · rw [isNew, here', here]
    · have different : other ≠ t := fun same => notInside list (same ▸ old)
      rw [others other different]
      exact placed.within old
  · intro other notLinked
    have different : other ≠ t := fun same =>
      notLinked ⟨queue, mem_set.mpr (.inl ⟨same, rfl⟩)⟩
    rw [others other different]
    refine placed.outside fun linked => notLinked ?_
    rcases linked with ⟨list, member⟩
    exact ⟨list, mem_set.mpr (.inr member)⟩

private theorem moved (placed : Placed state sequences) {queue : Queue}
    {contents : List TaskId}
    (inserted : List.Perm contents (t :: (sequences.remove t).elements queue))
    (others : ∀ other, other ≠ t → later other = state other)
    (here : later t = stateWithin queue) :
    Placed later ((sequences.remove t).set queue contents) := by
  have removed : Placed (Function.update state t .run) (sequences.remove t) :=
    placed.remove (fun other different => Function.update_of_ne different _ _)
      (Function.update_self _ _ _)
  refine removed.insert placed.remove_not_linked inserted (fun other different => ?_) here
  rw [others other different, Function.update_of_ne different]

theorem toTail (placed : Placed state sequences) (queue : Queue)
    (others : ∀ other, other ≠ t → later other = state other)
    (here : later t = stateWithin queue) : Placed later (sequences.toTail t queue) :=
  placed.moved (List.perm_append_singleton _ _) others here

theorem toFront (placed : Placed state sequences) (queue : Queue)
    (others : ∀ other, other ≠ t → later other = state other)
    (here : later t = stateWithin queue) : Placed later (sequences.toFront t queue) :=
  placed.moved (List.Perm.refl _) others here

theorem ready_iff (placed : Placed state sequences) :
    state t = .ready ↔ t ∈ sequences.elements .readyqueue := by
  constructor
  · intro isReady
    by_cases linked : sequences.Linked t
    · rcases linked with ⟨queue, member⟩
      have agrees := (placed.within member).symm.trans isReady
      cases queue <;> first | exact member | cases agrees
    · rw [placed.outside linked] at isReady
      cases isReady
  · exact placed.within

theorem blocked_iff (placed : Placed state sequences) :
    state t = .blocked ↔
      t ∈ sequences.elements .keyboardqueue ∨ ∃ sem, t ∈ sequences.elements (.blocked sem) := by
  constructor
  · intro isBlocked
    by_cases linked : sequences.Linked t
    · rcases linked with ⟨queue, member⟩
      have agrees := (placed.within member).symm.trans isBlocked
      cases queue with
      | freequeue => cases agrees
      | readyqueue => cases agrees
      | keyboardqueue => exact .inl member
      | blocked sem => exact .inr ⟨sem, member⟩
    · rw [placed.outside linked] at isBlocked
      cases isBlocked
  · intro member
    rcases member with member | ⟨sem, member⟩
    · exact placed.within member
    · exact placed.within member

theorem not_linked_moved (placed : Placed state sequences) {queue : Queue}
    {contents : List TaskId} {other : TaskId} (different : other ≠ t)
    (unlinked : ¬sequences.Linked other)
    (members : other ∈ contents → other = t ∨ other ∈ (sequences.remove t).elements queue) :
    ¬((sequences.remove t).set queue contents).Linked other := by
  have removed : ∀ list, other ∉ (sequences.remove t).elements list := fun list member =>
    unlinked ⟨list, (placed.mem_remove.mp member).2⟩
  intro linked
  rcases linked with ⟨list, member⟩
  rw [Sequences.set_elements] at member
  split at member
  · exact (members member).elim different (removed queue)
  · exact removed list member

theorem not_linked_toTail (placed : Placed state sequences) {queue : Queue} {other : TaskId}
    (different : other ≠ t) (unlinked : ¬sequences.Linked other) :
    ¬(sequences.toTail t queue).Linked other :=
  placed.not_linked_moved different unlinked fun member => by
    rw [List.mem_append, List.mem_singleton] at member
    exact member.symm

theorem not_linked_toFront (placed : Placed state sequences) {queue : Queue} {other : TaskId}
    (different : other ≠ t) (unlinked : ¬sequences.Linked other) :
    ¬(sequences.toFront t queue).Linked other :=
  placed.not_linked_moved different unlinked fun member => List.mem_cons.mp member

theorem length_le (placed : Placed state sequences) (queue : Queue) :
    (sequences.elements queue).length ≤ nrTasks := by
  simpa using (placed.nodup queue).length_le_card

end Placed

end Zeos
