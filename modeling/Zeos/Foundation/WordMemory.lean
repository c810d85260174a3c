import Mathlib

/-! # Words in a byte memory

Little-endian words of four bytes, at any address of a 32-bit address space.
-/

namespace Foundation

abbrev Word := BitVec 32

abbrev ByteMap := Word → BitVec 8

def InWord (address byte : Word) : Prop := (byte - address).toNat < 4

def Apart (left right : Word) : Prop := 4 ≤ (right - left).toNat ∧ 4 ≤ (left - right).toNat

instance (address byte : Word) : Decidable (InWord address byte) :=
  inferInstanceAs (Decidable (_ < _))

instance (left right : Word) : Decidable (Apart left right) :=
  inferInstanceAs (Decidable (_ ∧ _))

theorem add_sub_self_left (base offset : Word) : base + offset - base = offset := by
  rw [BitVec.add_comm, BitVec.add_sub_cancel]

theorem inWord_add {address offset : Word} (inside : offset.toNat < 4) :
    InWord address (address + offset) := by
  rw [InWord, add_sub_self_left]
  exact inside

theorem apart_add_add (base left right : Word) :
    Apart (base + left) (base + right) ↔ Apart left right := by
  have cancel (first second : Word) : base + first - (base + second) = first - second := by
    bv_omega
  rw [Apart, Apart, cancel, cancel]

theorem Apart.symm {left right : Word} (apart : Apart left right) : Apart right left :=
  ⟨apart.2, apart.1⟩

theorem Apart.not_inWord {left right byte : Word} (apart : Apart left right)
    (inside : InWord right byte) : ¬InWord left byte := by
  rcases apart with ⟨above, below⟩
  simp only [InWord] at inside ⊢
  bv_omega

namespace ByteMap

def load (memory : ByteMap) (address : Word) : Word :=
  memory (address + 3) ++ memory (address + 2) ++ memory (address + 1) ++ memory address

def store (memory : ByteMap) (address value : Word) : ByteMap := fun byte =>
  if InWord address byte then value.extractLsb' (8 * (byte - address).toNat) 8 else memory byte

variable {memory other : ByteMap} {address : Word}

theorem load_congr (agree : ∀ byte, InWord address byte → other byte = memory byte) :
    other.load address = memory.load address := by
  have here := agree (address + 0#32) (inWord_add (by decide))
  rw [BitVec.add_zero] at here
  rw [load, load, here, agree _ (inWord_add (by decide)), agree _ (inWord_add (by decide)),
    agree _ (inWord_add (by decide))]

theorem store_add (value : Word) {offset : Word} (inside : offset.toNat < 4) :
    memory.store address value (address + offset) = value.extractLsb' (8 * offset.toNat) 8 := by
  rw [store, if_pos (inWord_add inside), add_sub_self_left]

theorem store_outside (value : Word) {byte : Word} (outside : ¬InWord address byte) :
    memory.store address value byte = memory byte :=
  if_neg outside

@[simp] theorem load_store (memory : ByteMap) (address value : Word) :
    (memory.store address value).load address = value := by
  have first := @store_add memory address value 0#32 (by decide)
  rw [BitVec.add_zero] at first
  rw [load, first, store_add value (by decide), store_add value (by decide),
    store_add value (by decide)]
  apply BitVec.eq_of_getLsbD_eq
  intro bit inside
  simp only [BitVec.getLsbD_append, BitVec.getLsbD_extractLsb', BitVec.toNat_ofNat]
  grind

theorem load_store_apart (value : Word) {stored : Word} (apart : Apart stored address) :
    (memory.store stored value).load address = memory.load address :=
  load_congr fun _ inside => store_outside value (apart.not_inWord inside)

end ByteMap

end Foundation
