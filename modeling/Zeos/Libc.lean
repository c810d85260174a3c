import Zeos.Foundation.CellRow
import Zeos.Foundation.Numeral
import Zeos.BlockCopy
import Zeos.System

/-! # The number printer of the library

`itoa` (`libc.c`), which the error printer of the user library and the number printer
of the kernel (`system.c`) call.
-/

namespace Zeos

open Foundation

/-- `while (a>0) { b[i]=(a%10)+'0'; a=a/10; i++; }` -/
def digitLoop (b : BitVec 32) (a : Int) (i : Nat) (memory : FlatMemory) : FlatMemory × Nat :=
  if 0 < a then
    digitLoop b (a.tdiv 10) (i + 1)
      (Function.update memory (place b i) (UInt8.ofInt (a.tmod 10 + 48)))
  else (memory, i)
termination_by a.toNat
decreasing_by
  rw [Int.tdiv_eq_ediv_of_nonneg (by omega)]
  omega

/-- `for (i1=0; i1<i/2; i1++) { c=b[i1]; b[i1]=b[i-i1-1]; b[i-i1-1]=c; }` -/
def swapLoop (b : BitVec 32) (i i1 : Nat) (memory : FlatMemory) : FlatMemory :=
  if i1 < i / 2 then
    let c := memory (place b i1)
    let memory := Function.update memory (place b i1) (memory (place b (i - i1 - 1)))
    swapLoop b i (i1 + 1) (Function.update memory (place b (i - i1 - 1)) c)
  else memory
termination_by i / 2 - i1

def itoa (a : Int) (b : BitVec 32) (memory : FlatMemory) : FlatMemory :=
  if a = 0 then Function.update (Function.update memory (place b 0) 48) (place b 1) 0
  else
    let (memory, i) := digitLoop b a 0 memory
    let memory := swapLoop b i 0 memory
    Function.update memory (place b i) 0

/-- A numeral of `a` is at `b`, with a zero behind it, and nothing else has been
written. -/
def PrintsNumeral (a : Int) (b : BitVec 32) (before after : FlatMemory) : Prop :=
  ∃ text, Numeral.Signed a text ∧ CellRow.Holds (place b) after (text ++ [0]) ∧
    CellRow.OnlyWithin (place b) (text.length + 1) before after

/-! ## The loops -/

section Loops

variable {b : BitVec 32} {a : Int} {memory : FlatMemory}

theorem place_distinct (b : BitVec 32) {count : Nat} (small : count ≤ 4294967296) :
    CellRow.Distinct (place b) count := by
  intro i j first second same
  have addresses := congrArg BitVec.toNat same
  rw [BitVec.toNat_ofNat, BitVec.toNat_ofNat] at addresses
  omega

theorem digit_character (positive : 0 < a) :
    UInt8.ofInt (a.tmod 10 + 48) = Numeral.character (a.toNat % 10) := by
  rw [UInt8.ofInt, Numeral.character, Int.tmod_eq_emod_of_nonneg (by omega)]
  congr 1
  omega

theorem digitLoop_eq (b : BitVec 32) (a : Int) (i : Nat) (memory : FlatMemory) :
    digitLoop b a i memory =
      (CellRow.storeFrom (place b) i (Numeral.backwards a.toNat) memory,
        i + (Numeral.backwards a.toNat).length) := by
  induction a, i, memory using digitLoop.induct b with
  | case1 a i memory positive induction =>
      have rest : (a.tdiv 10).toNat = a.toNat / 10 := by
        rw [Int.tdiv_eq_ediv_of_nonneg (by omega)]
        omega
      rw [digitLoop, if_pos positive, induction, rest, digit_character positive,
        @Numeral.backwards_step a.toNat (by omega), List.length_cons, CellRow.storeFrom,
        Prod.mk.injEq]
      exact ⟨rfl, by omega⟩
  | case2 a i memory done =>
      have none : a.toNat = 0 := by omega
      rw [digitLoop, if_neg done, none]
      rfl

theorem swapLoop_turn {i i1 : Nat} (within : i1 ≤ i / 2) :
    swapLoop b i i1 (CellRow.turn (place b) i i1 memory) =
      CellRow.turn (place b) i (i / 2) memory := by
  generalize left : i / 2 - i1 = rounds
  induction rounds generalizing i1 with
  | zero =>
      rw [swapLoop, if_neg (by omega), show i1 = i / 2 by omega]
  | succ rounds induction =>
      rw [swapLoop, if_pos (by omega)]
      exact induction (by omega) (by omega)

/-! ## The numeral -/

theorem printsNumeral_of_holds {before after : FlatMemory} {text : List UInt8}
    (numeral : Numeral.Signed a text) (short : text.length ≤ 10)
    (holds : CellRow.Holds (place b) after text)
    (only : CellRow.OnlyWithin (place b) text.length before after) :
    PrintsNumeral a b before (Function.update after (place b text.length) 0) := by
  refine ⟨text, numeral, ?_, ?_⟩
  · apply holds.storeFrom [0]
    exact place_distinct b (by rw [List.length_singleton]; omega)
  · exact (only.mono (by omega)).trans (CellRow.onlyWithin_store (by omega) 0)

theorem itoa_zero (b : BitVec 32) (memory : FlatMemory) :
    PrintsNumeral 0 b memory (itoa 0 b memory) := by
  have distinct : CellRow.Distinct (place b) 1 := place_distinct b (by decide)
  have numeral : Numeral.Signed 0 [48] := ⟨[48], Numeral.canonical_zero, rfl⟩
  have holds : CellRow.Holds (place b) (Function.update memory (place b 0) 48) [48] :=
    CellRow.storeFrom_holds [48] memory distinct
  rw [itoa, if_pos rfl]
  exact printsNumeral_of_holds numeral (by decide) holds (CellRow.onlyWithin_store (by decide) 48)

theorem itoa_positive (positive : 0 < a) (int : IsInt a) (b : BitVec 32) (memory : FlatMemory) :
    PrintsNumeral a b memory (itoa a b memory) := by
  let digits := Numeral.backwards a.toNat
  let stored := CellRow.storeFrom (place b) 0 digits memory
  let turned := CellRow.turn (place b) digits.length (digits.length / 2) stored
  have printed : itoa a b memory = Function.update turned (place b digits.length) 0 := by
    have loop := digitLoop_eq b a 0 memory
    have swapped := @swapLoop_turn b stored digits.length 0 (Nat.zero_le _)
    rw [Nat.zero_add] at loop
    rw [CellRow.turn] at swapped
    rw [itoa, if_neg (by omega), loop]
    exact congrArg (fun memory => Function.update memory (place b digits.length) 0) swapped
  have short : digits.length ≤ 10 := Numeral.backwards_length (by have := int.2; omega)
  have distinct : CellRow.Distinct (place b) digits.length := place_distinct b (by omega)
  have numeral : Numeral.Signed a digits.reverse := by
    refine ⟨digits.reverse, ?_, (if_neg (by omega)).symm⟩
    rw [show a.natAbs = a.toNat by omega]
    exact Numeral.canonical_backwards (by omega)
  have holds : CellRow.Holds (place b) turned digits.reverse :=
    (CellRow.storeFrom_holds digits memory distinct).turn distinct
  have only : CellRow.OnlyWithin (place b) digits.length memory turned := by
    have first := @CellRow.storeFrom_onlyWithin _ _ (place b) _ 0 digits memory
    rw [Nat.zero_add] at first
    exact first.trans (CellRow.turn_onlyWithin stored (by omega))
  rw [printed, ← List.length_reverse]
  rw [← List.length_reverse] at short only
  exact printsNumeral_of_holds numeral short holds only

theorem itoa_negative (negative : a < 0) (b : BitVec 32) (memory : FlatMemory) :
    itoa a b memory = Function.update memory (place b 0) 0 := by
  rw [itoa, if_neg (by omega), digitLoop, if_neg (by omega)]
  change Function.update (swapLoop b 0 0 memory) (place b 0) 0 = _
  rw [swapLoop, if_neg (by omega)]

theorem itoa_noSign (negative : a < 0) (b : BitVec 32) (memory : FlatMemory) :
    ¬PrintsNumeral a b memory (itoa a b memory) := by
  rintro ⟨text, ⟨digits, -, signed⟩, holds, -⟩
  rw [if_pos negative] at signed
  subst signed
  have sign : _ = Numeral.minus := holds 0 (Nat.zero_lt_succ _)
  rw [itoa_negative negative, Function.update_self] at sign
  exact absurd sign (by decide)

end Loops

/-- A number is printed exactly when it is not negative. -/
theorem itoaPrints {a : Int} (int : IsInt a) (b : BitVec 32) (memory : FlatMemory) :
    PrintsNumeral a b memory (itoa a b memory) ↔ 0 ≤ a := by
  constructor
  · intro printed
    by_contra negative
    exact itoa_noSign (by omega) b memory printed
  · intro nonnegative
    rcases Int.lt_or_eq_of_le nonnegative with positive | zero
    · exact itoa_positive positive int b memory
    · rw [← zero]
      exact itoa_zero b memory

theorem itoaPrints_largest :
    PrintsNumeral 2147483647 0 (fun _ => 32) (itoa 2147483647 0 fun _ => 32) ∧
      ¬PrintsNumeral (-2147483648) 0 (fun _ => 32) (itoa (-2147483648) 0 fun _ => 32) := by
  have largest := @itoaPrints 2147483647 (by unfold IsInt; decide) 0 fun _ => 32
  have least := @itoaPrints (-2147483648) (by unfold IsInt; decide) 0 fun _ => 32
  exact ⟨largest.mpr (by decide), fun printed => absurd (least.mp printed) (by decide)⟩

/-- Printing -1 leaves the empty text. -/
theorem itoaPrints_minusOne :
    (itoa (-1) 0 fun _ => 32) 0 = 0 ∧
      ¬∀ a, IsInt a → ∀ b memory, PrintsNumeral a b memory (itoa a b memory) := by
  constructor
  · change (itoa (-1) 0 fun _ => 32) (place 0 0) = 0
    rw [itoa_negative (by decide), Function.update_self]
  · intro always
    exact itoa_noSign (by decide) 0 _ (always (-1) (by unfold IsInt; decide) 0 fun _ => 32)

end Zeos
