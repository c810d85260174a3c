import Zeos.System

/-! # What `access_ok` accepts

The blocks a check of user memory should accept, and how far `access_ok` is from
accepting just those.
-/

namespace Zeos

open Foundation Kernel

def codeStart : Nat := pagLogInitCode * pageSize
def dataStart : Nat := pagLogInitData * pageSize

theorem userBounds : codeStart = 1048576 ∧ dataStart = 1081344 := by
  decide

def AccessPage (write : Bool) (page : Nat) : Prop :=
  (if write then pagLogInitData else pagLogInitCode) ≤ page ∧ page < pagLogInitHeap

def BlockInside (write : Bool) (addr size : Nat) : Prop :=
  ∀ byte, addr ≤ byte → byte < addr + size → AccessPage write (byte / pageSize)

theorem blockInside_iff {write : Bool} {addr size : Nat} (positive : 0 < size) :
    BlockInside write addr size ↔
      (if write then dataStart else codeStart) ≤ addr ∧ addr + size ≤ heapStart := by
  have sizes := memoryMap
  have heap := heapBounds
  have user := userBounds
  constructor
  · intro inside
    have first := inside addr (Nat.le_refl addr) (by omega)
    have last := inside (addr + size - 1) (by omega) (by omega)
    unfold AccessPage pageSize at first last
    cases write <;> simp only [Bool.false_eq_true, if_true, if_false] at first last ⊢ <;> omega
  · rintro ⟨lower, upper⟩ byte above below
    unfold AccessPage pageSize
    cases write <;> simp only [Bool.false_eq_true, if_true, if_false] at lower ⊢ <;> omega

/-- The kind of access makes no difference: what passes the test for writing passes the one
it falls through to. -/
theorem accessOk_iff (write : Bool) (addr size : Nat) :
    accessOk write addr size = true ↔
      pagLogInitCode ≤ addr / pageSize ∧
        addr / pageSize ≤ Core.wrap (addr + size) / pageSize ∧
        Core.wrap (addr + size) / pageSize ≤ pagLogInitHeap := by
  have sizes := memoryMap
  unfold accessOk
  dsimp only
  split
  · rename_i overflow
    simp only [Bool.false_eq_true, false_iff, not_and]
    omega
  · rename_i ordered
    simp only [Bool.or_eq_true, Bool.and_eq_true, decide_eq_true_eq]
    constructor
    · rintro (⟨⟨-, lower⟩, upper⟩ | ⟨lower, upper⟩) <;> omega
    · rintro ⟨lower, -, upper⟩
      exact .inr ⟨lower, upper⟩

/-- What the check should decide. -/
structure AccessExact (addr size : Nat) : Prop where
  reads : accessOk false addr size = true ↔ BlockInside false addr size
  writes : accessOk true addr size = true ↔ BlockInside true addr size
  superset : accessOk true addr size = true → accessOk false addr size = true

/-- The block starts in the code pages, or runs past the data but not past the page behind
them. -/
def Overstepping (addr size : Nat) : Prop :=
  codeStart ≤ addr ∧ addr + size < heapStart + pageSize ∧
    (addr < dataStart ∨ heapStart < addr + size)

/-- The block starts in the user pages or the page behind them and goes round the address
space, back into the page it started in. -/
def Encircling (addr size : Nat) : Prop :=
  codeStart ≤ addr ∧ addr < heapStart + pageSize ∧
    (addr + size) / pageSize = addr / pageSize + 1048576

/-- `access_ok` is right about exactly the blocks that are neither. -/
theorem accessDecided {addr size : Nat} (addrWord : IsUnsigned addr) (sizeWord : IsUnsigned size)
    (positive : 0 < size) :
    AccessExact addr size ↔ ¬Overstepping addr size ∧ ¬Encircling addr size := by
  have sizes := memoryMap
  have heap := heapBounds
  have user := userBounds
  have reads := accessOk_iff false addr size
  have writes := accessOk_iff true addr size
  have readable := @blockInside_iff false addr size positive
  have writable := @blockInside_iff true addr size positive
  unfold Core.wrap pageSize at reads writes
  unfold IsUnsigned at addrWord sizeWord
  simp only [Bool.false_eq_true, if_true, if_false] at readable writable
  unfold Overstepping Encircling pageSize
  constructor
  · rintro ⟨-, decides, -⟩
    rw [writes, writable] at decides
    omega
  · rintro ⟨inBounds, straight⟩
    refine ⟨?_, ?_, ?_⟩
    · rw [reads, readable]
      omega
    · rw [writes, writable]
      omega
    · rw [reads, writes]
      exact id

/-- The 28 bytes of `struct stats` at the start of the data. -/
theorem accessDecided_stats : AccessExact 1081344 28 :=
  (accessDecided (by decide) (by decide) (by decide)).mpr
    (by unfold Overstepping Encircling; decide)

/-- The first byte of the code passes for writable. -/
theorem access_writesCode : ¬AccessExact 1048576 1 := by
  intro decides
  have accepted : accessOk true 1048576 1 = true := by decide
  have inside := decides.writes.mp accepted 1048576 (Nat.le_refl _) (by decide)
  exact absurd inside (by unfold AccessPage; decide)

end Zeos
