import Mathlib

/-! # Decimal numerals

Texts of decimal digits, the numbers they stand for, and the one text that is written
for a number.
-/

namespace Foundation

namespace Numeral

def character (digit : Nat) : UInt8 := UInt8.ofNat (digit + 48)

def minus : UInt8 := 45

theorem character_toNat {digit : Nat} (small : digit < 10) :
    (character digit).toNat = digit + 48 := by
  rw [character, UInt8.toNat_ofNat']
  exact Nat.mod_eq_of_lt (by omega)

def value (text : List UInt8) : Nat :=
  text.foldl (fun value digit => 10 * value + (digit.toNat - 48)) 0

structure Canonical (number : Nat) (text : List UInt8) : Prop where
  digits : ∀ digit ∈ text, 48 ≤ digit.toNat ∧ digit.toNat ≤ 57
  nonempty : text ≠ []
  leading : text.head? = some (character 0) → text = [character 0]
  value : value text = number

def Signed (number : Int) (text : List UInt8) : Prop :=
  ∃ digits, Canonical number.natAbs digits ∧
    text = if number < 0 then minus :: digits else digits

theorem canonical_zero : Canonical 0 [character 0] where
  digits := by
    intro digit member
    rw [List.mem_singleton.mp member, character_toNat (by decide)]
    omega
  nonempty := List.cons_ne_nil _ _
  leading := fun _ => rfl
  value := by
    change 10 * 0 + ((character 0).toNat - 48) = 0
    rw [character_toNat (by decide)]

/-! ## The digits of a number -/

def backwards (number : Nat) : List UInt8 := (Nat.digits 10 number).map character

theorem backwards_step {number : Nat} (positive : 0 < number) :
    backwards number = character (number % 10) :: backwards (number / 10) := by
  rw [backwards, Nat.digits_def' (by decide) positive]
  rfl

theorem backwards_length {number : Nat} (int : number < 2147483648) :
    (backwards number).length ≤ 10 := by
  rw [backwards, List.length_map, Nat.digits_length_le_iff (by decide)]
  omega

theorem value_reverse {digits : List Nat} (small : ∀ digit ∈ digits, digit < 10) :
    value (digits.map character).reverse = Nat.ofDigits 10 digits := by
  rw [value, List.foldl_reverse]
  induction digits with
  | nil => rfl
  | cons digit digits induction =>
      have rest := induction fun other member => small other (List.mem_cons_of_mem _ member)
      rw [List.map_cons, List.foldr_cons, rest, Nat.ofDigits_cons,
        character_toNat (small digit List.mem_cons_self), Nat.add_sub_cancel, Nat.add_comm]

theorem canonical_backwards {number : Nat} (positive : 0 < number) :
    Canonical number (backwards number).reverse := by
  have small : ∀ digit ∈ Nat.digits 10 number, digit < 10 :=
    fun digit member => Nat.digits_lt_base (by decide) member
  have some : Nat.digits 10 number ≠ [] := Nat.digits_ne_nil_iff_ne_zero.mpr (by omega)
  refine ⟨?_, ?_, ?_, ?_⟩
  · intro digit member
    rcases List.mem_map.mp (List.mem_reverse.mp member) with ⟨digit, listed, same⟩
    subst same
    have below := small digit listed
    rw [character_toNat below]
    omega
  · rw [backwards, Ne, List.reverse_eq_nil_iff, List.map_eq_nil_iff]
    exact some
  · -- the leading digit is the last one to come off, which is not zero
    intro zero
    rw [List.head?_reverse, backwards, List.getLast?_map, List.getLast?_eq_some_getLast some,
      Option.map_some, Option.some.injEq] at zero
    have below := small _ (List.getLast_mem some)
    have units := congrArg UInt8.toNat zero
    rw [character_toNat below, character_toNat (by decide)] at units
    exact absurd (by omega) (@Nat.getLast_digit_ne_zero 10 number (by omega))
  · rw [backwards, value_reverse small, Nat.ofDigits_digits]

end Numeral

end Foundation
