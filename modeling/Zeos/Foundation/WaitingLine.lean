import Zeos.Foundation.TransitionSystem

/-! # Waiting lines

A line is served from the front and joined at the back. An urgent newcomer may be
put in front, but then it is served at once. How often anyone is served while
somebody waits follows from the order in the line.
-/

namespace Foundation

namespace WaitingLine

variable {α : Type}

/-- One step of a line: `urgent` goes to the front, `joined` go to the back, and
`served` leaves at the front. -/
structure Serves (before : List α) (urgent : Option α) (joined : List α) (served : Option α)
    (after : List α) : Prop where
  order : urgent.toList ++ before ++ joined = served.toList ++ after
  prompt : urgent ≠ none → served ≠ none

def inTurn (urgent served : Option α) : Option α :=
  match urgent with
  | none => served
  | some _ => none

variable {before after joined : List α} {urgent served : Option α} {t : α}

theorem Serves.of_urgent {u : α} (step : Serves before (some u) joined served after) :
    served = some u ∧ after = before ++ joined := by
  have order := step.order
  cases served with
  | none => exact absurd rfl (step.prompt (Option.some_ne_none u))
  | some v =>
      simp only [Option.toList_some, List.cons_append, List.cons.injEq] at order
      exact ⟨congrArg some order.1.symm, order.2.symm⟩

theorem Serves.mem (step : Serves before urgent joined served after) (waiting : t ∈ before)
    (notServed : served ≠ some t) : t ∈ after := by
  have member : t ∈ served.toList ++ after := by
    rw [← step.order]
    simp [waiting]
  rcases List.mem_append.mp member with inFront | behind
  · exact absurd (Option.mem_toList.mp inFront) notServed
  · exact behind

theorem Serves.joins (step : Serves before urgent joined served after)
    (nodup : (served.toList ++ after).Nodup) (absent : t ∉ before) (enters : t ∈ after) :
    t ∈ joined := by
  have member : t ∈ urgent.toList ++ before ++ joined := by
    rw [step.order]
    simp [enters]
  rw [List.append_assoc, List.mem_append, List.mem_append] at member
  rcases member with isUrgent | old | new
  · have same : urgent = some t := Option.mem_toList.mp isUrgent
    subst same
    rw [step.of_urgent.1] at nodup
    exact absurd enters (List.nodup_cons.mp nodup).1
  · exact absurd old absent
  · exact new

variable [DecidableEq α]

def ahead (t : α) (line : List α) : List α := line.takeWhile (· ≠ t)

theorem ahead_append (waiting : t ∈ before) : ahead t (before ++ joined) = ahead t before := by
  unfold ahead
  induction before with
  | nil => cases waiting
  | cons first rest induction =>
      by_cases here : first = t
      · simp [here]
      · have later : t ∈ rest := (List.mem_cons.mp waiting).resolve_left fun same => here same.symm
        simpa [here] using induction later

theorem ahead_cons {u : α} (different : u ≠ t) : ahead t (u :: before) = u :: ahead t before := by
  simp [ahead, different]

theorem Serves.ahead_eq (step : Serves before urgent joined served after) (waiting : t ∈ before)
    (notServed : served ≠ some t) :
    (inTurn urgent served).toList ++ ahead t after = ahead t before := by
  cases urgent with
  | some u =>
      rcases step.of_urgent with ⟨-, equal⟩
      rw [equal, ahead_append waiting]
      rfl
  | none =>
      have order : before ++ joined = served.toList ++ after := step.order
      rw [← ahead_append waiting, order]
      cases served with
      | none => rfl
      | some u => exact (ahead_cons fun same => notServed (congrArg some same)).symm

section Histories

variable {State Label : Type} {system : TransitionSystem State Label}
  {first last : State} {history : List (Transition State Label)}
  {line : State → List α} {urgent served : Transition State Label → Option α}

def Moves (line : State → List α) (urgent served : Transition State Label → Option α)
    (transition : Transition State Label) : Prop :=
  ∃ joined, Serves (line transition.before) (urgent transition) joined (served transition)
    (line transition.after)

def turns (urgent served : Transition State Label → Option α)
    (history : List (Transition State Label)) : List α :=
  history.flatMap fun transition => (inTurn (urgent transition) (served transition)).toList

omit [DecidableEq α] in
/-- Whoever waits and is not served keeps waiting, so the line moves in every
step if it does whenever somebody waits. -/
theorem waits_of_run (run : system.Run first history last) (waiting : t ∈ line first)
    (moves : ∀ transition ∈ history, t ∈ line transition.before →
      Moves line urgent served transition)
    (notServed : ∀ transition ∈ history, served transition ≠ some t) :
    t ∈ line last ∧ ∀ transition ∈ history, Moves line urgent served transition := by
  induction run with
  | nil => exact ⟨waiting, by simp⟩
  | @snoc history middle label last earlier step induction =>
      rcases induction (fun transition member => moves transition (List.mem_append_left _ member))
        (fun transition member => notServed transition (List.mem_append_left _ member))
        with ⟨stillWaiting, moved⟩
      have here : (⟨middle, label, last⟩ : Transition State Label) ∈
          history ++ [⟨middle, label, last⟩] := by simp
      have moves' := moves _ here stillWaiting
      rcases moves' with ⟨joined, serves⟩
      refine ⟨serves.mem stillWaiting (notServed _ here), fun transition member => ?_⟩
      rcases List.mem_append.mp member with old | new
      · exact moved transition old
      · rw [List.mem_singleton.mp new]
        exact ⟨joined, serves⟩

/-- While `t` waits, those ahead are served in their order, and nobody else is
served in turn. -/
theorem ahead_of_run (run : system.Run first history last) (waiting : t ∈ line first)
    (moves : ∀ transition ∈ history, t ∈ line transition.before →
      Moves line urgent served transition)
    (notServed : ∀ transition ∈ history, served transition ≠ some t) :
    turns urgent served history ++ ahead t (line last) = ahead t (line first) := by
  induction run with
  | nil => rfl
  | @snoc history middle label last earlier step induction =>
      have earlierMoves : ∀ transition ∈ history, t ∈ line transition.before →
          Moves line urgent served transition := fun transition member =>
        moves transition (List.mem_append_left _ member)
      have earlierMissed : ∀ transition ∈ history, served transition ≠ some t :=
        fun transition member => notServed transition (List.mem_append_left _ member)
      have stillWaiting := (waits_of_run earlier waiting earlierMoves earlierMissed).1
      have here : (⟨middle, label, last⟩ : Transition State Label) ∈
          history ++ [⟨middle, label, last⟩] := by simp
      rcases moves _ here stillWaiting with ⟨joined, serves⟩
      rw [← induction earlierMoves earlierMissed,
        ← serves.ahead_eq stillWaiting (notServed _ here)]
      simp [turns]

theorem countP_served {u : α}
    (moves : ∀ transition ∈ history, Moves line urgent served transition) :
    history.countP (fun transition => served transition = some u) =
      (turns urgent served history).count u +
        history.countP (fun transition => urgent transition = some u) := by
  induction history with
  | nil => rfl
  | cons transition rest induction =>
      have later := induction fun other member => moves other (List.mem_cons_of_mem _ member)
      rcases moves transition List.mem_cons_self with ⟨joined, serves⟩
      have here : turns urgent served (transition :: rest) =
          (inTurn (urgent transition) (served transition)).toList ++ turns urgent served rest := rfl
      rw [List.countP_cons, List.countP_cons, later, here, List.count_append]
      generalize urgent transition = newcomer at serves
      cases newcomer with
      | none =>
          cases served transition with
          | none => simp [inTurn]
          | some v =>
              simp only [inTurn, Option.toList_some, List.count_singleton]
              by_cases same : v = u <;> simp [same]
              omega
      | some v =>
          rw [serves.of_urgent.1]
          simp only [inTurn, Option.toList_none, List.count_nil]
          omega

/-- Counting from the service of `earlier`, just before the wait of `t` began:
nobody is served twice in turn. -/
theorem served_le (run : system.Run first history last) (waiting : t ∈ line first)
    (moves : ∀ transition ∈ history, t ∈ line transition.before →
      Moves line urgent served transition)
    (notServed : ∀ transition ∈ history, served transition ≠ some t) {earlier : Option α}
    (nodup : (earlier.toList ++ line first).Nodup) (u : α) :
    earlier.toList.count u + history.countP (fun transition => served transition = some u) ≤
      1 + history.countP (fun transition => urgent transition = some u) := by
  have order := ahead_of_run run waiting moves notServed
  have once : (earlier.toList ++ (turns urgent served history ++ ahead t (line last))).Nodup := by
    rw [order]
    exact nodup.sublist ((List.Sublist.refl _).append (List.takeWhile_sublist _))
  have bound := List.nodup_iff_count_le_one.mp once u
  have count := @countP_served α _ _ _ history line urgent served u
    (waits_of_run run waiting moves notServed).2
  rw [List.count_append, List.count_append] at bound
  omega

end Histories

end WaitingLine

end Foundation
