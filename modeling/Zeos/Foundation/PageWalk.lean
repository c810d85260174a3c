import Zeos.Foundation.WordMemory

/-! # Two-level paging

How the processor translates a linear address of 32 bits through a page directory
and a page table of 1024 words each, with supervisor accesses free from write
protection, and how it marks the entries that it uses.
-/

namespace Foundation

/-- An access to memory: by a user program or the supervisor, a write or a read. -/
structure Access where
  user : Bool
  write : Bool
  deriving DecidableEq

namespace Paging

/-! ## Entries -/

def present (entry : Word) : Bool := entry.getLsbD 0

def writable (entry : Word) : Bool := entry.getLsbD 1

def userAccessible (entry : Word) : Bool := entry.getLsbD 2

def base (entry : Word) : Word := entry &&& 0xFFFFF000

def Allows (access : Access) (entry : Word) : Prop :=
  present entry = true ∧
    (access.user = true → userAccessible entry = true ∧
      (access.write = true → writable entry = true))

instance allowsDecidable (access : Access) (entry : Word) : Decidable (Allows access entry) :=
  inferInstanceAs (Decidable (_ ∧ _))

/-! ## The walk -/

def directoryEntry (cr3 linear : Word) : Word := base cr3 + 4 * (linear >>> 22)

def tableEntry (memory : ByteMap) (cr3 linear : Word) : Word :=
  base (memory.load (directoryEntry cr3 linear)) + 4 * (linear >>> 12 &&& 0x3FF)

def walk (memory : ByteMap) (cr3 linear : Word) (access : Access) : Option Word :=
  if Allows access (memory.load (directoryEntry cr3 linear)) ∧
      Allows access (memory.load (tableEntry memory cr3 linear)) then
    some (base (memory.load (tableEntry memory cr3 linear)) + (linear &&& 0xFFF))
  else none

/-! ## Accessed and dirty entries -/

def accessedBit : Word := 0x20

def dirtyBit : Word := 0x40

def mark (memory : ByteMap) (cr3 linear : Word) (access : Access) : ByteMap :=
  let used := memory.store (directoryEntry cr3 linear)
    (memory.load (directoryEntry cr3 linear) ||| accessedBit)
  used.store (tableEntry memory cr3 linear) (used.load (tableEntry memory cr3 linear) |||
    if access.write then accessedBit ||| dirtyBit else accessedBit)

def unmarked (entry : Word) : Word := entry &&& ~~~(accessedBit ||| dirtyBit)

def SameEntries (memory other : ByteMap) : Prop :=
  ∀ address : Word, address.toNat % 4 = 0 →
    unmarked (other.load address) = unmarked (memory.load address)

/-! ## Marks and translation -/

theorem unmarked_or {marks : Word} (only : marks &&& ~~~(accessedBit ||| dirtyBit) = 0#32)
    (entry : Word) : unmarked (entry ||| marks) = unmarked entry := by
  rw [unmarked, BitVec.and_or_distrib_right, only, BitVec.or_zero]
  rfl

theorem getLsbD_unmarked (entry : Word) {bit : Nat} (low : bit < 5) :
    (unmarked entry).getLsbD bit = entry.getLsbD bit := by
  rw [unmarked, BitVec.getLsbD_and]
  have kept : (~~~(accessedBit ||| dirtyBit)).getLsbD bit = true := by
    interval_cases bit <;> rfl
  rw [kept, Bool.and_true]

theorem base_unmarked (entry : Word) : base (unmarked entry) = base entry := by
  rw [base, unmarked, BitVec.and_assoc]
  rfl

theorem allows_unmarked (access : Access) (entry : Word) :
    Allows access (unmarked entry) ↔ Allows access entry := by
  rw [Allows, Allows, present, present, userAccessible, userAccessible, writable, writable,
    getLsbD_unmarked entry (by decide), getLsbD_unmarked entry (by decide),
    getLsbD_unmarked entry (by decide)]

theorem allows_congr {access : Access} {entry other : Word}
    (same : unmarked other = unmarked entry) : Allows access other ↔ Allows access entry := by
  rw [← allows_unmarked access other, same, allows_unmarked]

theorem base_congr {entry other : Word} (same : unmarked other = unmarked entry) :
    base other = base entry := by
  rw [← base_unmarked other, same, base_unmarked]

theorem base_aligned (entry : Word) : (base entry).toNat % 4096 = 0 := by
  have low : base entry &&& 0xFFF = 0 := by
    rw [base, BitVec.and_assoc]
    exact BitVec.and_zero
  have masked := congrArg BitVec.toNat low
  rw [BitVec.toNat_and] at masked
  exact (Nat.and_two_pow_sub_one_eq_mod _ 12).symm.trans masked

theorem entry_aligned (entry index : Word) : (base entry + 4 * index).toNat % 4 = 0 := by
  have aligned := base_aligned entry
  rw [BitVec.toNat_add, BitVec.toNat_mul]
  have four : (4 : Word).toNat = 4 := rfl
  rw [four]
  omega

theorem apart_of_aligned {left right : Word} (leftAligned : left.toNat % 4 = 0)
    (rightAligned : right.toNat % 4 = 0) (different : left ≠ right) : Apart left right := by
  have apart : left.toNat ≠ right.toNat := fun same => different (BitVec.eq_of_toNat_eq same)
  constructor <;> bv_omega

theorem sameEntries_store {memory : ByteMap} {address value : Word}
    (aligned : address.toNat % 4 = 0)
    (same : unmarked value = unmarked (memory.load address)) :
    SameEntries memory (memory.store address value) := by
  intro other otherAligned
  by_cases here : address = other
  · subst here
    rw [ByteMap.load_store, same]
  · rw [ByteMap.load_store_apart value (apart_of_aligned aligned otherAligned here)]

namespace SameEntries

variable {memory middle other : ByteMap}

theorem refl (memory : ByteMap) : SameEntries memory memory := fun _ _ => rfl

theorem trans (first : SameEntries memory middle) (second : SameEntries middle other) :
    SameEntries memory other :=
  fun address aligned => (second address aligned).trans (first address aligned)

theorem directoryEntry (same : SameEntries memory other) (cr3 linear : Word) :
    unmarked (other.load (directoryEntry cr3 linear)) =
      unmarked (memory.load (Paging.directoryEntry cr3 linear)) :=
  same _ (entry_aligned cr3 _)

theorem tableEntry (same : SameEntries memory other) (cr3 linear : Word) :
    Paging.tableEntry other cr3 linear = Paging.tableEntry memory cr3 linear := by
  rw [Paging.tableEntry, Paging.tableEntry, base_congr (same.directoryEntry cr3 linear)]

theorem walk (same : SameEntries memory other) (cr3 linear : Word) (access : Access) :
    walk other cr3 linear access = Paging.walk memory cr3 linear access := by
  have entries : unmarked (other.load (Paging.tableEntry memory cr3 linear)) =
      unmarked (memory.load (Paging.tableEntry memory cr3 linear)) := same _ (entry_aligned _ _)
  rw [Paging.walk, Paging.walk, same.tableEntry, base_congr entries]
  refine if_congr ?_ rfl rfl
  rw [allows_congr (same.directoryEntry cr3 linear), allows_congr entries]

end SameEntries

theorem mark_same (memory : ByteMap) (cr3 linear : Word) (access : Access) :
    SameEntries memory (mark memory cr3 linear access) := by
  have used := @sameEntries_store memory (directoryEntry cr3 linear)
    (memory.load (directoryEntry cr3 linear) ||| accessedBit) (entry_aligned _ _)
    (unmarked_or (by decide) _)
  apply used.trans
  apply sameEntries_store (entry_aligned _ _)
  apply unmarked_or
  split <;> decide

/-! ## Addresses as numbers -/

theorem low_toNat (linear : Word) : (linear &&& 0xFFF).toNat = linear.toNat % 4096 := by
  rw [BitVec.toNat_and]
  exact Nat.and_two_pow_sub_one_eq_mod _ 12

theorem page_toNat (linear : Word) :
    (linear >>> 12 &&& 0x3FF).toNat = linear.toNat / 4096 % 1024 := by
  rw [BitVec.toNat_and, BitVec.toNat_ushiftRight, Nat.shiftRight_eq_div_pow]
  exact Nat.and_two_pow_sub_one_eq_mod _ 10

theorem table_toNat (linear : Word) : (linear >>> 22).toNat = linear.toNat / 4194304 := by
  rw [BitVec.toNat_ushiftRight, Nat.shiftRight_eq_div_pow]

theorem base_eq (entry : Word) : base entry = entry >>> 12 <<< 12 := by
  have mask : ∀ bit : Fin 32, (0xFFFFF000#32).getLsbD bit = decide (12 ≤ bit.val) := by decide
  apply BitVec.eq_of_getLsbD_eq
  intro bit inside
  have kept := mask ⟨bit, inside⟩
  change (entry &&& 0xFFFFF000#32).getLsbD bit = _
  rw [BitVec.getLsbD_and, kept, BitVec.getLsbD_shiftLeft, BitVec.getLsbD_ushiftRight]
  by_cases high : 12 ≤ bit
  · rw [Nat.add_sub_cancel' high]
    simp [inside, high]
  · simp [inside, Nat.lt_of_not_le high, high]

theorem base_toNat (entry : Word) : (base entry).toNat = entry.toNat / 4096 * 4096 := by
  have bounded := entry.isLt
  rw [base_eq, BitVec.toNat_shiftLeft, BitVec.toNat_ushiftRight, Nat.shiftLeft_eq,
    Nat.shiftRight_eq_div_pow]
  omega

theorem base_of_aligned {entry : Word} (aligned : entry.toNat % 4096 = 0) :
    base entry = entry := by
  apply BitVec.eq_of_toNat_eq
  rw [base_toNat]
  omega

end Paging

end Foundation
