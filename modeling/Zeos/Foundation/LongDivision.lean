import Mathlib

/-! # Long division

Dividing a number by its digits, the highest first, as it is done on paper: the rest
of each step goes in front of the next digit.
-/

namespace Foundation

namespace LongDivision

def value (base front : Nat) (digits : List Nat) : Nat :=
  digits.foldl (fun number digit => number * base + digit) front

def divide (base divisor : Nat) : Nat → List Nat → List Nat × Nat
  | rest, [] => ([], rest)
  | rest, digit :: digits =>
      let chunk := rest * base + digit
      let later := divide base divisor (chunk % divisor) digits
      (chunk / divisor :: later.1, later.2)

variable {base divisor rest : Nat} {digits : List Nat}

theorem value_front (base front : Nat) (digits : List Nat) :
    value base front digits = front * base ^ digits.length + value base 0 digits := by
  induction digits generalizing front with
  | nil => simp [value]
  | cons digit digits induction =>
      have step : ∀ first, value base first (digit :: digits) =
          value base (first * base + digit) digits := fun _ => rfl
      rw [step, step, induction (front * base + digit), induction (0 * base + digit),
        List.length_cons]
      ring

theorem divide_length (base divisor rest : Nat) (digits : List Nat) :
    (divide base divisor rest digits).1.length = digits.length := by
  induction digits generalizing rest with
  | nil => rfl
  | cons digit digits induction => exact congrArg Nat.succ (induction _)

theorem divide_value (base divisor rest : Nat) (digits : List Nat) :
    value base rest digits =
      value base 0 (divide base divisor rest digits).1 * divisor +
        (divide base divisor rest digits).2 := by
  induction digits generalizing rest with
  | nil => simp [value, divide]
  | cons digit digits induction =>
      let chunk := rest * base + digit
      let later := divide base divisor (chunk % divisor) digits
      have length : later.1.length = digits.length := divide_length _ _ _ _
      have split : chunk / divisor * divisor + chunk % divisor = chunk := Nat.div_add_mod' _ _
      have quotient : value base 0 (divide base divisor rest (digit :: digits)).1 =
          value base (0 * base + chunk / divisor) later.1 := rfl
      calc value base rest (digit :: digits)
          = value base chunk digits := rfl
        _ = chunk * base ^ digits.length + value base 0 digits := value_front _ _ _
        _ = (chunk / divisor * divisor + chunk % divisor) * base ^ digits.length +
              value base 0 digits := by rw [split]
        _ = chunk / divisor * divisor * base ^ digits.length +
              value base (chunk % divisor) digits := by
            rw [value_front base (chunk % divisor)]
            ring
        _ = chunk / divisor * divisor * base ^ digits.length +
              (value base 0 later.1 * divisor + later.2) := by rw [induction (chunk % divisor)]
        _ = (chunk / divisor * base ^ later.1.length + value base 0 later.1) * divisor +
              later.2 := by
            rw [length]
            ring
        _ = value base 0 (divide base divisor rest (digit :: digits)).1 * divisor + later.2 := by
            rw [quotient, value_front base (0 * base + chunk / divisor), Nat.zero_mul,
              Nat.zero_add]

theorem divide_rest (small : rest < divisor) : (divide base divisor rest digits).2 < divisor := by
  induction digits generalizing rest with
  | nil => exact small
  | cons digit digits induction =>
      exact induction (Nat.mod_lt _ (Nat.lt_of_le_of_lt (Nat.zero_le _) small))

theorem divide_digits (small : rest < divisor) (digitsSmall : ∀ digit ∈ digits, digit < base) :
    ∀ digit ∈ (divide base divisor rest digits).1, digit < base := by
  induction digits generalizing rest with
  | nil =>
      intro digit member
      cases member
  | cons first digits induction =>
      have positive : 0 < divisor := Nat.lt_of_le_of_lt (Nat.zero_le _) small
      intro digit member
      rcases List.mem_cons.mp member with here | later
      · have firstSmall := digitsSmall first List.mem_cons_self
        rw [here]
        apply Nat.div_lt_of_lt_mul
        calc rest * base + first
            < rest * base + base := Nat.add_lt_add_left firstSmall _
          _ = (rest + 1) * base := (Nat.succ_mul _ _).symm
          _ ≤ divisor * base := Nat.mul_le_mul_right _ small
      · exact induction (Nat.mod_lt _ positive)
          (fun other listed => digitsSmall other (List.mem_cons_of_mem _ listed)) digit later

theorem divide_exact (small : rest < divisor) :
    value base 0 (divide base divisor rest digits).1 = value base rest digits / divisor ∧
      (divide base divisor rest digits).2 = value base rest digits % divisor := by
  have positive : 0 < divisor := Nat.lt_of_le_of_lt (Nat.zero_le _) small
  have whole := divide_value base divisor rest digits
  have below := @divide_rest base divisor rest digits small
  rw [whole]
  constructor
  · rw [Nat.add_comm, Nat.add_mul_div_right _ _ positive, Nat.div_eq_of_lt below, Nat.zero_add]
  · rw [Nat.add_comm, Nat.add_mul_mod_self_right, Nat.mod_eq_of_lt below]

theorem divide_two {high low : Nat} (positive : 0 < divisor) :
    high / divisor * base + (high % divisor * base + low) / divisor =
        (high * base + low) / divisor ∧
      (high % divisor * base + low) % divisor = (high * base + low) % divisor := by
  have divided := @divide_exact base divisor 0 [high, low] positive
  simpa only [divide, value, List.foldl_cons, List.foldl_nil, Nat.zero_mul, Nat.zero_add]
    using divided

theorem divide_two_digit {high low : Nat} (small : high < divisor) (digit : low < base) :
    (high * base + low) / divisor < base :=
  divide_digits small (fun _ member => List.mem_singleton.mp member ▸ digit) _
    List.mem_cons_self

end LongDivision

end Foundation
