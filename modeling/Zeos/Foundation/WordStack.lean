import Zeos.Foundation.WordMemory

/-! # Words on a stack

The words that lie one above the other from an address on, and what a push, a pop
and a store into one of them leave there.
-/

namespace Foundation.ByteMap

def Holds (memory : ByteMap) (address : Word) : List Word → Prop
  | [] => True
  | word :: words => memory.load address = word ∧ Holds memory (address + 4) words

def words (memory : ByteMap) (address : Word) : Nat → List Word
  | 0 => []
  | count + 1 => memory.load address :: words memory (address + 4) count

variable {memory other : ByteMap} {address : Word} {stacked : List Word}

theorem Holds.moved (holds : memory.Holds address stacked) {target : Word}
    (fits : 4 * stacked.length ≤ 2 ^ 32)
    (agree : ∀ offset : Word, offset.toNat < 4 * stacked.length →
      other (target + offset) = memory (address + offset)) :
    other.Holds target stacked := by
  induction stacked generalizing address target with
  | nil => trivial
  | cons word stacked induction =>
      rw [List.length_cons] at fits agree
      rcases holds with ⟨first, rest⟩
      have here (offset : Word) (inside : offset.toNat < 4) :
          other (target + offset) = memory (address + offset) :=
        agree offset (by omega)
      have start := here 0#32 (by decide)
      rw [BitVec.add_zero, BitVec.add_zero] at start
      refine ⟨?_, induction rest (by omega) ?_⟩
      · rw [← first, ByteMap.load, ByteMap.load, start, here 1 (by decide), here 2 (by decide),
          here 3 (by decide)]
      · intro offset inside
        have next := agree (4 + offset) (by bv_omega)
        rwa [← BitVec.add_assoc, ← BitVec.add_assoc] at next

theorem Holds.congr (holds : memory.Holds address stacked) (fits : 4 * stacked.length ≤ 2 ^ 32)
    (agree : ∀ byte, (byte - address).toNat < 4 * stacked.length → other byte = memory byte) :
    other.Holds address stacked := by
  apply holds.moved fits
  intro offset inside
  apply agree
  rw [add_sub_self_left]
  exact inside

theorem Holds.load (holds : memory.Holds address stacked) {index : Nat} {word : Word}
    (listed : stacked[index]? = some word) :
    memory.load (address + 4 * BitVec.ofNat 32 index) = word := by
  induction stacked generalizing address index with
  | nil => cases listed
  | cons first stacked induction =>
      cases index with
      | zero =>
          rw [List.getElem?_cons_zero] at listed
          cases listed
          simpa using holds.1
      | succ index =>
          have found := induction holds.2 listed
          have place : address + 4 * BitVec.ofNat 32 (index + 1) =
              address + 4 + 4 * BitVec.ofNat 32 index := by
            bv_omega
          rw [place]
          exact found

theorem Holds.store_apart (holds : memory.Holds address stacked) {stored : Word} (value : Word)
    (fits : 4 * stacked.length ≤ 2 ^ 32)
    (apart : ∀ byte, InWord stored byte → 4 * stacked.length ≤ (byte - address).toNat) :
    (memory.store stored value).Holds address stacked := by
  apply holds.congr fits
  intro byte inside
  apply store_outside
  intro within
  have outside := apart byte within
  omega

theorem Holds.store_below (holds : memory.Holds address stacked) (value : Word)
    (fits : 4 * stacked.length + 4 ≤ 2 ^ 32) :
    (memory.store (address - 4) value).Holds address stacked := by
  apply holds.store_apart value (by omega)
  intro byte within
  rw [InWord] at within
  bv_omega

theorem Holds.push (holds : memory.Holds address stacked) (value : Word)
    (fits : 4 * stacked.length + 4 ≤ 2 ^ 32) :
    (memory.store (address - 4) value).Holds (address - 4) (value :: stacked) := by
  refine ⟨load_store memory (address - 4) value, ?_⟩
  rw [BitVec.sub_add_cancel]
  exact holds.store_below value fits

theorem Holds.set (holds : memory.Holds address stacked) (value : Word) (index : Nat)
    (inside : index < stacked.length) (fits : 4 * stacked.length ≤ 2 ^ 32) :
    (memory.store (address + 4 * BitVec.ofNat 32 index) value).Holds address
      (stacked.set index value) := by
  induction stacked generalizing address index with
  | nil => cases inside
  | cons first stacked induction =>
      rw [List.length_cons] at inside fits
      cases index with
      | zero =>
          have below := holds.2.store_below value (by omega)
          rw [BitVec.add_sub_cancel] at below
          have place : address + 4 * BitVec.ofNat 32 0 = address := by simp
          rw [place, List.set_cons_zero]
          exact ⟨load_store memory address value, below⟩
      | succ index =>
          have place : address + 4 * BitVec.ofNat 32 (index + 1) =
              address + 4 + 4 * BitVec.ofNat 32 index := by
            bv_omega
          have apart : Apart (address + 4 * BitVec.ofNat 32 (index + 1)) address := by
            rw [Apart]
            bv_omega
          refine ⟨(load_store_apart value apart).trans holds.1, ?_⟩
          rw [place]
          exact induction holds.2 index (by omega) (by omega)

def pushAll (memory : ByteMap) (address : Word) : List Word → ByteMap
  | [] => memory
  | word :: words => (memory.store (address - 4) word).pushAll (address - 4) words

theorem Holds.pushAll (holds : memory.Holds address stacked) (pushed : List Word)
    (fits : 4 * (stacked.length + pushed.length) ≤ 2 ^ 32) :
    (memory.pushAll address pushed).Holds (address - 4 * BitVec.ofNat 32 pushed.length)
      (pushed.reverse ++ stacked) := by
  induction pushed generalizing memory address stacked with
  | nil =>
      have place : address - 4 * BitVec.ofNat 32 0 = address := by simp
      rw [List.length_nil, place]
      exact holds
  | cons word pushed induction =>
      rw [List.length_cons] at fits ⊢
      have place : address - 4 * BitVec.ofNat 32 (pushed.length + 1) =
          address - 4 - 4 * BitVec.ofNat 32 pushed.length := by
        bv_omega
      rw [place, List.reverse_cons, List.append_assoc]
      apply induction (holds.push word (by omega))
      rw [List.length_cons]
      omega

theorem pushAll_outside (pushed : List Word) {byte : Word}
    (fits : 4 * pushed.length ≤ 2 ^ 32)
    (outside : 4 * pushed.length ≤ (byte - (address - 4 * BitVec.ofNat 32 pushed.length)).toNat) :
    memory.pushAll address pushed byte = memory byte := by
  induction pushed generalizing memory address with
  | nil => rfl
  | cons word pushed induction =>
      rw [List.length_cons] at fits outside
      rw [pushAll, induction (by omega) (by bv_omega)]
      apply store_outside
      rw [InWord]
      bv_omega

end Foundation.ByteMap
