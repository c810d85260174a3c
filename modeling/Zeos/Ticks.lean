import Zeos.CpuTime
import Zeos.Foundation.LongDivision

/-! # Ticks

`get_ticks` divides the 64-bit time stamp with the 32-bit division of the processor,
which fails when a quotient does not fit in a register.
-/

namespace Zeos

open Foundation

namespace Ticks

def cyclesPerTick : BitVec 32 := 109000

/-- The exception of a division by zero, or with a quotient that is too large. -/
inductive DivideError
  | divideError
  deriving DecidableEq

/-- `divl`: the quotient and the remainder of `upper` and `low` together. -/
def divl (base low upper : BitVec 32) : Except DivideError (BitVec 32 × BitVec 32) :=
  let dividend := upper.toNat * 2 ^ 32 + low.toNat
  if base = 0 ∨ 2 ^ 32 ≤ dividend / base.toNat then .error .divideError
  else .ok (BitVec.ofNat 32 (dividend / base.toNat), BitVec.ofNat 32 (dividend % base.toNat))

/-- The macro `do_div`: what becomes of `n`, and the remainder. -/
def doDiv (n : BitVec 64) (base : BitVec 32) : Except DivideError (BitVec 64 × BitVec 32) := do
  let low := n.setWidth 32
  let high := (n >>> 32).setWidth 32
  let upper := if high ≠ 0 then high % base else high
  let quotient := if high ≠ 0 then high / base else high
  let divided ← divl base low upper
  return (quotient ++ divided.1, divided.2)

/-- The instruction `rdtsc`, as the low and the high half of the time stamp. -/
def rdtsc (stamp : BitVec 64) : BitVec 32 × BitVec 32 :=
  (stamp.setWidth 32, (stamp >>> 32).setWidth 32)

def getTicks (stamp : BitVec 64) : Except DivideError (BitVec 32) := do
  let (eax, edx) := rdtsc stamp
  let ticks := (edx.setWidth 64 <<< 32) + eax.setWidth 64
  let (ticks, _) ← doDiv ticks cyclesPerTick
  return ticks.setWidth 32

/-! ## The division -/

section Division

variable {base low upper : BitVec 32}

theorem divl_eq (small : upper.toNat < base.toNat) :
    divl base low upper =
      .ok (BitVec.ofNat 32 ((upper.toNat * 2 ^ 32 + low.toNat) / base.toNat),
        BitVec.ofNat 32 ((upper.toNat * 2 ^ 32 + low.toNat) % base.toNat)) := by
  have nonzero : base ≠ 0 := by
    intro zero
    rw [zero] at small
    exact Nat.not_lt_zero _ small
  have digit := LongDivision.divide_two_digit small low.isLt
  unfold divl
  dsimp only
  rw [if_neg (not_or.mpr ⟨nonzero, Nat.not_le.mpr digit⟩)]

theorem divide_halves {high : BitVec 32} (nonzero : base ≠ 0) :
    ∃ quotient : BitVec 64, ∃ remainder,
      (do
        let divided ← divl base low (if high ≠ 0 then high % base else high)
        return ((if high ≠ 0 then high / base else high) ++ divided.1, divided.2)) =
          Except.ok (quotient, remainder) ∧
      quotient.toNat = (high.toNat * 2 ^ 32 + low.toNat) / base.toNat ∧
      remainder.toNat = (high.toNat * 2 ^ 32 + low.toNat) % base.toNat := by
  have positive : 0 < base.toNat := by
    have different : base.toNat ≠ 0 := fun zero => nonzero (BitVec.eq_of_toNat_eq zero)
    omega
  -- the macro leaves the division of the high half out when that is zero
  have shortcut : (if high ≠ 0 then high % base else high) = high % base ∧
      (if high ≠ 0 then high / base else high) = high / base := by
    by_cases zero : high = 0
    · rw [if_neg (not_not.mpr zero), if_neg (not_not.mpr zero), zero]
      simp
    · rw [if_pos zero, if_pos zero]
      exact ⟨rfl, rfl⟩
  have highDigit : (high / base).toNat = high.toNat / base.toNat := BitVec.toNat_udiv
  have rest : (high % base).toNat = high.toNat % base.toNat := BitVec.toNat_umod
  have upper : (high % base).toNat < base.toNat := rest ▸ Nat.mod_lt _ positive
  have lowDigit := LongDivision.divide_two_digit upper low.isLt
  have small := (Nat.mod_lt ((high % base).toNat * 2 ^ 32 + low.toNat) positive).trans base.isLt
  have divided := @LongDivision.divide_two (2 ^ 32) base.toNat high.toNat low.toNat positive
  rw [shortcut.1, shortcut.2, divl_eq upper, ok_bind]
  refine ⟨_, _, rfl, ?_, ?_⟩
  · rw [BitVec.toNat_append, BitVec.toNat_ofNat, Nat.mod_eq_of_lt lowDigit,
      ← Nat.shiftLeft_add_eq_or_of_lt lowDigit, Nat.shiftLeft_eq, highDigit, rest]
    exact divided.1
  · rw [BitVec.toNat_ofNat, Nat.mod_eq_of_lt small, rest]
    exact divided.2

theorem halves (n : BitVec 64) :
    ((n >>> 32).setWidth 32).toNat * 2 ^ 32 + (n.setWidth 32).toNat = n.toNat := by
  have high : ((n >>> 32).setWidth 32).toNat = n.toNat / 2 ^ 32 := by
    rw [BitVec.toNat_setWidth, BitVec.toNat_ushiftRight, Nat.shiftRight_eq_div_pow]
    have bound := n.isLt
    omega
  rw [high, BitVec.toNat_setWidth]
  exact Nat.div_add_mod' _ _

theorem doDiv_eq (n : BitVec 64) (nonzero : base ≠ 0) :
    ∃ quotient remainder, doDiv n base = .ok (quotient, remainder) ∧
      quotient.toNat = n.toNat / base.toNat ∧ remainder.toNat = n.toNat % base.toNat := by
  have divided := @divide_halves base (n.setWidth 32) ((n >>> 32).setWidth 32) nonzero
  rw [halves] at divided
  exact divided

end Division

/-! ## The clock -/

theorem joined_toNat (high low : BitVec 32) :
    ((high.setWidth 64 <<< 32) + low.setWidth 64).toNat = high.toNat * 2 ^ 32 + low.toNat := by
  have upper := high.isLt
  have lower := low.isLt
  have wide : ∀ half : BitVec 32, (half.setWidth 64).toNat = half.toNat := fun half =>
    BitVec.toNat_setWidth_of_le (by decide)
  rw [BitVec.toNat_add, BitVec.toNat_shiftLeft, wide, wide, Nat.shiftLeft_eq]
  omega

theorem rdtsc_joined (stamp : BitVec 64) :
    ((rdtsc stamp).2.setWidth 64 <<< 32) + (rdtsc stamp).1.setWidth 64 = stamp := by
  apply BitVec.eq_of_toNat_eq
  rw [joined_toNat]
  exact halves stamp

theorem getTicks_eq (stamp : BitVec 64) :
    ∃ ticks, getTicks stamp = .ok ticks ∧
      ticks.toNat = stamp.toNat / 109000 % 4294967296 := by
  rcases doDiv_eq stamp (show cyclesPerTick ≠ 0 by decide) with
    ⟨quotient, remainder, divided, value, -⟩
  refine ⟨quotient.setWidth 32, ?_, ?_⟩
  · unfold getTicks
    dsimp only
    rw [rdtsc_joined, divided, ok_bind]
    rfl
  · have base : cyclesPerTick.toNat = 109000 := rfl
    have word : 2 ^ 32 = 4294967296 := by norm_num
    rw [BitVec.toNat_setWidth, value, base, word]

/-- The readings of a kernel whose time stamps are these. -/
def readings (stamps : Nat → BitVec 64) (reading : Nat) : Nat :=
  ((getTicks (stamps reading)).toOption.map BitVec.toNat).getD 0

theorem readings_eq (stamps : Nat → BitVec 64) (reading : Nat) :
    readings stamps reading = (stamps reading).toNat / 109000 % 4294967296 := by
  rcases getTicks_eq (stamps reading) with ⟨ticks, computed, value⟩
  have shown : readings stamps reading = ticks.toNat := by
    unfold readings
    rw [computed]
    rfl
  rw [shown, value]

end Ticks

open Ticks

/-- `do_div` divides every 64-bit number by every 32-bit one other than zero: its two
divisions never trap, and leave the quotient and the remainder. -/
theorem doDivExact (n : BitVec 64) {base : BitVec 32} (nonzero : base ≠ 0) :
    doDiv n base = .ok (n / base.setWidth 64, (n % base.setWidth 64).setWidth 32) := by
  rcases doDiv_eq n nonzero with ⟨quotient, remainder, divided, quotientValue, remainderValue⟩
  have wide : (base.setWidth 64).toNat = base.toNat := BitVec.toNat_setWidth_of_le (by decide)
  have first : quotient = n / base.setWidth 64 := by
    apply BitVec.eq_of_toNat_eq
    rw [quotientValue, BitVec.toNat_udiv, wide]
  have second : remainder = (n % base.setWidth 64).setWidth 32 := by
    apply BitVec.eq_of_toNat_eq
    rw [remainderValue, BitVec.toNat_setWidth, BitVec.toNat_umod, wide, ← remainderValue]
    exact (Nat.mod_eq_of_lt remainder.isLt).symm
  rw [divided, first, second]

/-- A day of cycles. -/
theorem doDivExact_day :
    doDiv 109000000000000 109000 = .ok (1000000000, 0) := by
  rw [doDivExact 109000000000000 (show (109000 : BitVec 32) ≠ 0 by decide)]
  decide

/-- What the clock of the kernel is worth when the time stamps do not decrease: what is charged
between two readings is the number of ticks in between, also across an overflow of the 32-bit
ticks, and before the first overflow the clock is steady. -/
structure MeasuresTime (stamps : Nat → BitVec 64) : Prop where
  charged : ∀ reading later, reading ≤ later →
    toUnsigned ((readings stamps later : Int) - readings stamps reading) =
      ((stamps later).toNat / 109000 - (stamps reading).toNat / 109000) % 4294967296
  steady : (∀ reading, (stamps reading).toNat < 109000 * 4294967296) → Steady (readings stamps)

theorem clockMeasuresTime {stamps : Nat → BitVec 64}
    (monotone : Monotone fun reading => (stamps reading).toNat) : MeasuresTime stamps where
  charged reading later le := by
    have grows : (stamps reading).toNat / 109000 ≤ (stamps later).toNat / 109000 :=
      Nat.div_le_div_right (monotone le)
    rw [readings_eq, readings_eq]
    unfold toUnsigned
    omega
  steady bounded := by
    have plain : ∀ reading, readings stamps reading = (stamps reading).toNat / 109000 := by
      intro reading
      rw [readings_eq]
      exact Nat.mod_eq_of_lt (Nat.div_lt_of_lt_mul (bounded reading))
    constructor
    · intro reading later le
      rw [plain, plain]
      exact Nat.div_le_div_right (monotone le)
    · intro reading
      rw [readings_eq]
      exact Nat.mod_lt _ (by decide)

/-- A clock that stands still after a while. -/
theorem clockMeasuresTime_stops :
    MeasuresTime fun reading => BitVec.ofNat 64 (min (reading * 50000) 1000000000) := by
  apply clockMeasuresTime
  intro reading later le
  have small : ∀ count, min (count * 50000) 1000000000 < 2 ^ 64 := fun count =>
    Nat.lt_of_le_of_lt (Nat.min_le_right _ _) (by decide)
  dsimp only
  rw [BitVec.toNat_ofNat, BitVec.toNat_ofNat, Nat.mod_eq_of_lt (small reading),
    Nat.mod_eq_of_lt (small later)]
  exact min_le_min_right _ (Nat.mul_le_mul_right _ le)

end Zeos
