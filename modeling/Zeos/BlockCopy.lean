import Zeos.Foundation.ByteCopy
import Zeos.Types

/-! # The copy routines on flat memory

`copy_data`, `copy_from_user` and `copy_to_user` (`utils.c`), over an address space of
32 bits in which every address is mapped.
-/

namespace Zeos

open Foundation

abbrev FlatMemory := BitVec 32 → UInt8

/-- The byte `offset` places behind `base`. -/
abbrev place (base : BitVec 32) (offset : Nat) : BitVec 32 := BitVec.ofNat 32 (base.toNat + offset)

/-- Accesses wrap around at the end of the address space. -/
def flat : ByteMemory FlatMemory Fault where
  load memory address := .ok (memory (BitVec.ofNat 32 address))
  store memory address byte := .ok (Function.update memory (BitVec.ofNat 32 address) byte)

/-! ## The routines

All three have the same two loops. -/

def copyData (start dest : BitVec 32) (size : Int) (memory : FlatMemory) :
    Except Fault FlatMemory :=
  flat.copy start.toNat dest.toNat size.toNat memory

def copyFromUser (start dest : BitVec 32) (size : Int) (memory : FlatMemory) :
    Except Fault (FlatMemory × Int) := do
  let memory ← flat.copy start.toNat dest.toNat size.toNat memory
  return (memory, 0)

def copyToUser (start dest : BitVec 32) (size : Int) (memory : FlatMemory) :
    Except Fault (FlatMemory × Int) := do
  let memory ← flat.copy start.toNat dest.toNat size.toNat memory
  return (memory, 0)

/-! ## What they do -/

/-- Both ranges lie in the address space, and the target does not begin inside the source. -/
structure CopyFits (start dest : BitVec 32) (size : Int) : Prop where
  source : start.toNat + size ≤ 4294967296
  target : dest.toNat + size ≤ 4294967296
  order : dest ≤ start ∨ start.toNat + size ≤ dest.toNat

/-- The first `size` bytes from `dest` are those that were at `start`, and nothing else
differs. -/
structure Copied (start dest : BitVec 32) (size : Int) (before after : FlatMemory) : Prop where
  arrives : ∀ k : Nat, k < size → after (place dest k) = before (place start k)
  keeps : ∀ address, (∀ k : Nat, k < size → address ≠ place dest k) →
    after address = before address

/-- The memory in which `done` bytes have been copied. -/
def copiedUpTo (start dest : BitVec 32) (memory : FlatMemory) (done : Nat) : FlatMemory :=
  fun address =>
    if dest.toNat ≤ address.toNat ∧ address.toNat < dest.toNat + done then
      memory (place start (address.toNat - dest.toNat))
    else memory address

section Copy

variable {start dest : BitVec 32} {size : Int} {memory : FlatMemory}

theorem place_toNat {base : BitVec 32} {offset : Nat} (inside : base.toNat + offset < 4294967296) :
    (place base offset).toNat = base.toNat + offset := by
  rw [BitVec.toNat_ofNat]
  exact Nat.mod_eq_of_lt inside

theorem copiedUpTo_zero : copiedUpTo start dest memory 0 = memory := by
  funext address
  rw [copiedUpTo, if_neg (by omega)]

theorem copiedUpTo_source (fits : CopyFits start dest size) {done index : Nat}
    (pending : done ≤ index) (inside : index < size) :
    copiedUpTo start dest memory done (place start index) = memory (place start index) := by
  have address : (place start index).toNat = start.toNat + index :=
    place_toNat (by have := fits.source; omega)
  rw [copiedUpTo, address, if_neg]
  rintro ⟨above, below⟩
  rcases fits.order with before | behind
  · have order : dest.toNat ≤ start.toNat := before
    omega
  · omega

theorem copiedUpTo_succ (fits : CopyFits start dest size) {done : Nat} (inside : done < size) :
    Function.update (copiedUpTo start dest memory done) (place dest done)
      (memory (place start done)) = copiedUpTo start dest memory (done + 1) := by
  have target : (place dest done).toNat = dest.toNat + done :=
    place_toNat (by have := fits.target; omega)
  funext address
  by_cases here : address = place dest done
  · subst here
    rw [Function.update_self, copiedUpTo, target, if_pos (by omega), Nat.add_sub_cancel_left]
  · have elsewhere : address.toNat ≠ dest.toNat + done := fun same =>
      here (BitVec.eq_of_toNat_eq (same.trans target.symm))
    rw [Function.update_of_ne here, copiedUpTo, copiedUpTo]
    exact if_congr (by omega) rfl rfl

theorem copy_flat (fits : 0 < size → CopyFits start dest size) :
    flat.copy start.toNat dest.toNat size.toNat memory =
      .ok (copiedUpTo start dest memory size.toNat) := by
  have pending : ByteMemory.Pending flat start.toNat size.toNat (copiedUpTo start dest memory)
      fun index => memory (place start index) := by
    intro done index before inside
    exact congrArg Except.ok (copiedUpTo_source (fits (by omega)) before (by omega))
  have advances : ByteMemory.Advances flat dest.toNat size.toNat (copiedUpTo start dest memory)
      fun index => memory (place start index) := by
    intro done inside
    exact congrArg Except.ok (copiedUpTo_succ (fits (by omega)) (by omega))
  have copied := ByteMemory.copy_eq pending.loads advances
  rwa [copiedUpTo_zero] at copied

theorem copiedUpTo_copied (fits : 0 < size → CopyFits start dest size) :
    Copied start dest size memory (copiedUpTo start dest memory size.toNat) where
  arrives k inside := by
    have target : (place dest k).toNat = dest.toNat + k :=
      place_toNat (by have := (fits (by omega)).target; omega)
    rw [copiedUpTo, target, if_pos (by omega), Nat.add_sub_cancel_left]
  keeps address outside := by
    rw [copiedUpTo, if_neg]
    rintro ⟨above, below⟩
    apply outside (address.toNat - dest.toNat) (by omega)
    apply BitVec.eq_of_toNat_eq
    rw [place_toNat (by omega)]
    omega

end Copy

/-- The three routines copy as if byte by byte, also where the target begins less than a word
in front of the source. -/
theorem copiesBytes {start dest : BitVec 32} {size : Int} (memory : FlatMemory)
    (fits : 0 < size → CopyFits start dest size) :
    ∃ after, Copied start dest size memory after ∧
      copyData start dest size memory = .ok after ∧
      copyFromUser start dest size memory = .ok (after, 0) ∧
      copyToUser start dest size memory = .ok (after, 0) := by
  have copied := @copy_flat start dest size memory fits
  refine ⟨_, copiedUpTo_copied fits, copied, ?_, ?_⟩
  · rw [copyFromUser, copied]
    rfl
  · rw [copyToUser, copied]
    rfl

def FlatMemory.sample : FlatMemory := fun address => .ofNat address.toNat

/-- Seven bytes, one place down. -/
theorem copiesBytes_overlapping :
    ∃ after, Copied 0x101 0x100 7 .sample after ∧
      copyData 0x101 0x100 7 .sample = .ok after ∧
      copyFromUser 0x101 0x100 7 .sample = .ok (after, 0) ∧
      copyToUser 0x101 0x100 7 .sample = .ok (after, 0) :=
  copiesBytes .sample fun _ => ⟨by decide, by decide, .inl (by decide)⟩

end Zeos
