import Mathlib

/-! # Failing computations and counted loops

Straight-line code that may stop with an error is written in `Except`. This
file gives the rewriting rules for its sequencing and the invariant rules for
a loop that runs its body for consecutive indices. Nothing here depends on
what the computations are about.
-/

namespace Foundation

universe u v w

section Sequencing

variable {ε : Type u} {α β : Type v}

@[simp] theorem ok_bind (value : α) (next : α → Except ε β) :
    (Except.ok value >>= next) = next value := rfl

@[simp] theorem error_bind (failure : ε) (next : α → Except ε β) :
    ((Except.error failure : Except ε α) >>= next) = .error failure := rfl

@[simp] theorem pure_eq_ok (value : α) :
    (pure value : Except ε α) = .ok value := rfl

theorem bind_eq_ok {first : Except ε α} {next : α → Except ε β} {result : β} :
    (first >>= next) = .ok result ↔
      ∃ middle, first = .ok middle ∧ next middle = .ok result := by
  cases first with
  | error failure => simp
  | ok value => simp

theorem bind_eq_error {first : Except ε α} {next : α → Except ε β} {failure : ε} :
    (first >>= next) = .error failure ↔
      first = .error failure ∨
        ∃ middle, first = .ok middle ∧ next middle = .error failure := by
  cases first with
  | error other => simp
  | ok value => simp

end Sequencing

/-! ## Postconditions -/

section Postconditions

variable {ε : Type u} {α β : Type v} {Allowed : ε → Prop} {Post : α → Prop} {Later : β → Prop}

/-- A result satisfies `Post`, a failure is one of the allowed ones. -/
structure Ensures (Allowed : ε → Prop) (Post : α → Prop) (result : Except ε α) : Prop where
  of_ok : ∀ {value}, result = .ok value → Post value
  of_error : ∀ {failure}, result = .error failure → Allowed failure

theorem Ensures.ok {value : α} (post : Post value) : Ensures Allowed Post (.ok value) :=
  ⟨fun equal => by cases equal; exact post, fun equal => nomatch equal⟩

theorem Ensures.error {failure : ε} (allowed : Allowed failure) :
    Ensures Allowed Post (.error failure) :=
  ⟨fun equal => (nomatch equal), fun equal => by cases equal; exact allowed⟩

theorem Ensures.bind {first : Except ε α} {next : α → Except ε β}
    (ensured : Ensures Allowed Post first)
    (rest : ∀ value, Post value → Ensures Allowed Later (next value)) :
    Ensures Allowed Later (first >>= next) := by
  cases first with
  | error failure => exact .error (ensured.of_error rfl)
  | ok value => exact rest value (ensured.of_ok rfl)

theorem Ensures.mono {Weaker : α → Prop} {result : Except ε α}
    (ensured : Ensures Allowed Post result) (weaker : ∀ value, Post value → Weaker value) :
    Ensures Allowed Weaker result :=
  ⟨fun equal => weaker _ (ensured.of_ok equal), ensured.of_error⟩

theorem Ensures.allow {More : ε → Prop} {result : Except ε α}
    (ensured : Ensures Allowed Post result) (more : ∀ failure, Allowed failure → More failure) :
    Ensures More Post result :=
  ⟨ensured.of_ok, fun equal => more _ (ensured.of_error equal)⟩

theorem Ensures.of_exists {result : Except ε α}
    (finished : ∃ value, result = .ok value ∧ Post value) : Ensures Allowed Post result := by
  rcases finished with ⟨value, equal, post⟩
  subst equal
  exact .ok post

abbrev FailsOnly (Allowed : ε → Prop) (result : Except ε α) : Prop :=
  Ensures Allowed (fun _ => True) result

theorem FailsOnly.bind {first : Except ε α} {next : α → Except ε β}
    (ensured : FailsOnly Allowed first) (rest : ∀ value, FailsOnly Allowed (next value)) :
    FailsOnly Allowed (first >>= next) :=
  Ensures.bind ensured fun value _ => rest value

end Postconditions

/-! ## Counted loops -/

section Loops

variable {ε : Type u} {σ : Type v}

/-- Run `body start`, `body (start + 1)`, ... for `count` indices, threading the
state and stopping at the first error. -/
def countedLoop (body : Nat → σ → Except ε σ) : Nat → Nat → σ → Except ε σ
  | _, 0, state => .ok state
  | start, count + 1, state => do
      let next ← body start state
      countedLoop body (start + 1) count next

variable {body : Nat → σ → Except ε σ}

@[simp] theorem countedLoop_zero (start : Nat) (state : σ) :
    countedLoop body start 0 state = .ok state := rfl

theorem countedLoop_succ (start count : Nat) (state : σ) :
    countedLoop body start (count + 1) state =
      (body start state >>= countedLoop body (start + 1) count) := rfl

/-- Partial correctness: whatever each iteration preserves holds at the end of
a loop that finished. -/
theorem countedLoop_invariant (Invariant : Nat → σ → Prop) {start count : Nat}
    {state final : σ} (finished : countedLoop body start count state = .ok final)
    (initially : Invariant start state)
    (preserved : ∀ index current next, start ≤ index → index < start + count →
      Invariant index current → body index current = .ok next →
      Invariant (index + 1) next) :
    Invariant (start + count) final := by
  induction count generalizing start state with
  | zero =>
      cases finished
      exact initially
  | succ count induction =>
      rw [countedLoop_succ, bind_eq_ok] at finished
      rcases finished with ⟨middle, first, rest⟩
      have afterFirst : Invariant (start + 1) middle :=
        preserved start state middle (Nat.le_refl _) (by omega) initially first
      have atEnd := induction rest afterFirst fun index current next lower upper =>
        preserved index current next (by omega) (by omega)
      rwa [show start + (count + 1) = start + 1 + count by omega]

/-- Total correctness: when every iteration succeeds from the invariant, the
loop finishes and the invariant holds at its end. -/
theorem countedLoop_total (Invariant : Nat → σ → Prop) {start count : Nat}
    {state : σ} (initially : Invariant start state)
    (advances : ∀ index current, start ≤ index → index < start + count →
      Invariant index current →
      ∃ next, body index current = .ok next ∧ Invariant (index + 1) next) :
    ∃ final, countedLoop body start count state = .ok final ∧
      Invariant (start + count) final := by
  induction count generalizing start state with
  | zero => exact ⟨state, rfl, initially⟩
  | succ count induction =>
      rcases advances start state (Nat.le_refl _) (by omega) initially with
        ⟨middle, first, afterFirst⟩
      have later := induction afterFirst fun index current lower upper =>
        advances index current (by omega) (by omega)
      rcases later with ⟨final, rest, atEnd⟩
      refine ⟨final, ?_, ?_⟩
      · rw [countedLoop_succ, first, ok_bind, rest]
      · rwa [show start + (count + 1) = start + 1 + count by omega]

theorem FailsOnly.countedLoop {Allowed : ε → Prop}
    (each : ∀ index current, FailsOnly Allowed (body index current)) (start count : Nat)
    (state : σ) : FailsOnly Allowed (countedLoop body start count state) := by
  induction count generalizing start state with
  | zero => exact .ok trivial
  | succ count induction =>
      rw [countedLoop_succ]
      exact (each start state).bind fun middle => induction (start + 1) middle

theorem countedLoop_closedForm (stateAt : Nat → σ) {start count : Nat}
    (advances : ∀ index, start ≤ index → index < start + count →
      body index (stateAt index) = .ok (stateAt (index + 1))) :
    countedLoop body start count (stateAt start) = .ok (stateAt (start + count)) := by
  have total : ∃ final, countedLoop body start count (stateAt start) = .ok final ∧
      final = stateAt (start + count) := by
    apply countedLoop_total (fun index current => current = stateAt index) rfl
    intro index current lower upper here
    subst here
    exact ⟨_, advances index lower upper, rfl⟩
  rcases total with ⟨final, finished, atEnd⟩
  rw [finished, atEnd]

/-- A loop whose iterations succeed under conditions finishes when they all hold. -/
theorem countedLoop_eq_ok {Allowed : Nat → Prop} (stateAt : Nat → σ) {start count : Nat} {final : σ}
    (step : ∀ index, start ≤ index → index < start + count → ∀ next,
      body index (stateAt index) = .ok next ↔ Allowed index ∧ next = stateAt (index + 1)) :
    countedLoop body start count (stateAt start) = .ok final ↔
      (∀ index, start ≤ index → index < start + count → Allowed index) ∧
        final = stateAt (start + count) := by
  induction count generalizing start with
  | zero =>
      constructor
      · intro finished
        cases finished
        exact ⟨fun index lower upper => by omega, rfl⟩
      · rintro ⟨-, same⟩
        exact congrArg Except.ok same.symm
  | succ count induction =>
      have first := step start (Nat.le_refl _) (by omega)
      have rest := @induction (start + 1) fun index lower upper => step index (by omega) (by omega)
      rw [show start + 1 + count = start + (count + 1) by omega] at rest
      rw [countedLoop_succ, bind_eq_ok]
      constructor
      · rintro ⟨middle, done, later⟩
        rcases (first middle).mp done with ⟨allowed, same⟩
        rw [same] at later
        rcases rest.mp later with ⟨others, atEnd⟩
        refine ⟨fun index lower upper => ?_, atEnd⟩
        rcases Nat.eq_or_lt_of_le lower with here | above
        · exact here ▸ allowed
        · exact others index above upper
      · rintro ⟨allowed, atEnd⟩
        refine ⟨_, (first _).mpr ⟨allowed start (Nat.le_refl _) (by omega), rfl⟩, rest.mpr ?_⟩
        exact ⟨fun index lower upper => allowed index (by omega) upper, atEnd⟩

end Loops

end Foundation
