import Mathlib

/-! # Rows of cells

Consecutive cells of a memory, with any way to address them: storing a list into
them from the front, and turning their contents around in place.
-/

namespace Foundation

universe u v

variable {Address : Type u} {Value : Type v}

namespace CellRow

def Distinct (cell : Nat → Address) (count : Nat) : Prop :=
  ∀ i j, i < count → j < count → cell i = cell j → i = j

theorem Distinct.ne {cell : Nat → Address} {count i j : Nat} (distinct : Distinct cell count)
    (first : i < count) (second : j < count) (different : i ≠ j) : cell i ≠ cell j :=
  fun same => different (distinct i j first second same)

def Holds (cell : Nat → Address) (memory : Address → Value) (items : List Value) : Prop :=
  ∀ i (inside : i < items.length), memory (cell i) = items[i]

def OnlyWithin (cell : Nat → Address) (count : Nat) (before after : Address → Value) : Prop :=
  ∀ address, (∀ i < count, address ≠ cell i) → after address = before address

variable {cell : Nat → Address} {memory after : Address → Value} {count : Nat}

theorem OnlyWithin.refl (memory : Address → Value) : OnlyWithin cell count memory memory :=
  fun _ _ => rfl

theorem OnlyWithin.trans {first second third : Address → Value}
    (one : OnlyWithin cell count first second) (two : OnlyWithin cell count second third) :
    OnlyWithin cell count first third :=
  fun address outside => (two address outside).trans (one address outside)

theorem OnlyWithin.mono {more : Nat} (only : OnlyWithin cell count memory after)
    (le : count ≤ more) : OnlyWithin cell more memory after :=
  fun address outside => only address fun i below => outside i (by omega)

variable [DecidableEq Address]

theorem onlyWithin_store {i : Nat} (inside : i < count) (value : Value) :
    OnlyWithin cell count memory (Function.update memory (cell i) value) :=
  fun _ outside => Function.update_of_ne (outside i inside) _ _

/-! ## Storing -/

/-- Store a list from cell number `i` on. -/
def storeFrom (cell : Nat → Address) : Nat → List Value → (Address → Value) → Address → Value
  | _, [], memory => memory
  | i, item :: items, memory =>
      storeFrom cell (i + 1) items (Function.update memory (cell i) item)

theorem storeFrom_onlyWithin (i : Nat) (items : List Value) (memory : Address → Value) :
    OnlyWithin cell (i + items.length) memory (storeFrom cell i items memory) := by
  induction items generalizing i memory with
  | nil => exact .refl memory
  | cons item items induction =>
      have rest := induction (i + 1) (Function.update memory (cell i) item)
      rw [List.length_cons, show i + (items.length + 1) = i + 1 + items.length by omega]
      exact (onlyWithin_store (by omega) item).trans rest

theorem Holds.storeFrom {front : List Value} (holds : Holds cell memory front)
    (items : List Value) (distinct : Distinct cell (front.length + items.length)) :
    Holds cell (storeFrom cell front.length items memory) (front ++ items) := by
  induction items generalizing front memory with
  | nil =>
      rw [List.append_nil]
      exact holds
  | cons item items induction =>
      rw [List.length_cons] at distinct
      have longer : Holds cell (Function.update memory (cell front.length) item)
          (front ++ [item]) := by
        intro i inside
        rw [List.length_append, List.length_singleton] at inside
        by_cases last : i = front.length
        · subst last
          rw [Function.update_self, List.getElem_concat_length rfl]
        · have different := distinct.ne (show i < _ by omega) (show front.length < _ by omega) last
          rw [Function.update_of_ne different, List.getElem_append_left (by omega)]
          exact holds i (by omega)
      have rest := @induction _ _ longer (by
        rw [List.length_append, List.length_singleton]
        rwa [show front.length + 1 + items.length = front.length + (items.length + 1) by omega])
      rw [List.length_append, List.length_singleton, List.append_assoc] at rest
      exact rest

theorem storeFrom_holds (items : List Value) (memory : Address → Value)
    (distinct : Distinct cell items.length) :
    Holds cell (storeFrom cell 0 items memory) items := by
  have nothing : Holds cell memory [] := fun _ inside => absurd inside (Nat.not_lt_zero _)
  exact nothing.storeFrom items (by rwa [List.length_nil, Nat.zero_add])

/-! ## Turning around -/

def exchange (memory : Address → Value) (first second : Address) : Address → Value :=
  Function.update (Function.update memory first (memory second)) second (memory first)

/-- The first `rounds` cells are exchanged with the last ones, from the outside in. -/
def turn (cell : Nat → Address) (count : Nat) : Nat → (Address → Value) → Address → Value
  | 0, memory => memory
  | rounds + 1, memory =>
      exchange (turn cell count rounds memory) (cell rounds) (cell (count - rounds - 1))

theorem turn_onlyWithin (memory : Address → Value) {rounds : Nat} (half : 2 * rounds ≤ count) :
    OnlyWithin cell count memory (turn cell count rounds memory) := by
  induction rounds with
  | zero => exact .refl memory
  | succ rounds induction =>
      exact ((induction (by omega)).trans (onlyWithin_store (by omega) _)).trans
        (onlyWithin_store (by omega) _)

theorem turn_cell (distinct : Distinct cell count) (memory : Address → Value) {rounds : Nat}
    (half : 2 * rounds ≤ count) {i : Nat} (inside : i < count) :
    turn cell count rounds memory (cell i) =
      if i < rounds ∨ count - rounds ≤ i then memory (cell (count - 1 - i))
      else memory (cell i) := by
  induction rounds generalizing i with
  | zero => rw [if_neg (by omega), turn]
  | succ rounds induction =>
      let mirror := count - rounds - 1
      have front := @induction (by omega) rounds (by omega)
      have back := @induction (by omega) mirror (by omega)
      rw [if_neg (by omega)] at front back
      rw [turn, exchange, back, front]
      by_cases atBack : i = mirror
      · subst atBack
        rw [Function.update_self, if_pos (by omega)]
        congr 2
        omega
      · rw [Function.update_of_ne (distinct.ne inside (by omega) atBack)]
        by_cases atFront : i = rounds
        · subst atFront
          rw [Function.update_self, if_pos (by omega)]
          congr 2
          omega
        · rw [Function.update_of_ne (distinct.ne inside (by omega) atFront),
            @induction (by omega) i inside]
          exact if_congr (by omega) rfl rfl

/-- After half as many rounds as there are cells, the contents are turned around. The cell
in the middle of an odd number stays where it is. -/
theorem Holds.turn {items : List Value} (holds : Holds cell memory items)
    (distinct : Distinct cell items.length) :
    Holds cell (turn cell items.length (items.length / 2) memory) items.reverse := by
  intro i inside
  rw [List.length_reverse] at inside
  rw [turn_cell distinct memory (by omega) inside, List.getElem_reverse]
  by_cases exchanged : i < items.length / 2 ∨ items.length - items.length / 2 ≤ i
  · rw [if_pos exchanged, holds _ (by omega)]
  · have middle : items.length - 1 - i = i := by omega
    rw [if_neg exchanged, holds i inside]
    congr 1
    exact middle.symm

end CellRow

end Foundation
