import Zeos.List

/-! # Constants and data of the kernel

The memory map (`mm_address.h`), the error numbers, page-table entries, task
structures and the global variables the kernel routines share.
-/

namespace Zeos

open Foundation

/-! ## Memory map -/

def totalPages : Nat := 1024
def numPagKernel : Nat := 256
def pagLogInitCode : Nat := 256
def numPagCode : Nat := 8
def pagLogInitData : Nat := pagLogInitCode + numPagCode
def numPagData : Nat := 20
def pagLogInitHeap : Nat := pagLogInitData + numPagData
def pageSize : Nat := 4096

abbrev nrTasks : Nat := 10
abbrev nrSemaphores : Nat := 20

instance : NeZero nrTasks := ⟨by decide⟩

theorem memoryMap : totalPages = 1024 ∧ numPagKernel = 256 ∧ pagLogInitCode = 256 ∧
    numPagCode = 8 ∧ pagLogInitData = 264 ∧ numPagData = 20 ∧ pagLogInitHeap = 284 ∧
    pageSize = 4096 := by
  decide

/-- The lowest possible program break, `PAG_LOG_INIT_HEAP<<12`. -/
def heapStart : Nat := pagLogInitHeap * pageSize

/-- One past the last byte a page table can map, `TOTAL_PAGES<<12`. -/
def heapLimit : Nat := totalPages * pageSize

theorem heapBounds : heapStart = 1163264 ∧ heapLimit = 4194304 := by
  decide

/-! ## Error numbers -/

def eagain : Int := 11
def enomem : Int := 12
def efault : Int := 14
def ebusy : Int := 16
def einval : Int := 22
def eperm : Int := 1
def esrch : Int := 3
def enosys : Int := 38

theorem errorNumbers : eagain = 11 ∧ enomem = 12 ∧ efault = 14 ∧ ebusy = 16 ∧
    einval = 22 ∧ eperm = 1 ∧ esrch = 3 ∧ enosys = 38 := by
  decide

/-! ## Machine integers -/

/-- Conversion to `unsigned int`. -/
def toUnsigned (value : Int) : Nat := (value % 4294967296).toNat

/-- Conversion of an `unsigned int` to `int`. -/
def toSigned (value : Nat) : Int :=
  if value % 4294967296 < 2147483648 then (value % 4294967296 : Nat)
  else (value % 4294967296 : Nat) - 4294967296

/-! ## Faults

Where the C code leaves defined behaviour, the model stops with a fault and
promises nothing about what follows. -/

inductive Fault
  /-- A page table is indexed at or above `TOTAL_PAGES`. -/
  | tableBounds (page : Nat)
  /-- The kernel touches an address whose page is not present. -/
  | pageFault (address : Nat)
  /-- An `int` increment overflows. -/
  | signedOverflow
  /-- An array runs over the end of its kernel stack, into the task structure there
  and the stack of another task. -/
  | stackOverflow (words : Nat)
  /-- A page of the kernel, with its variables, stacks and page tables, is mapped to
  another frame or written through a pointer of the user. -/
  | kernelPage (page : Nat)
  /-- A loop that empties a list runs more often than there are tasks. -/
  | endlessLoop
  /-- A list routine goes wrong. -/
  | list (reason : ListFault)
  deriving DecidableEq

/-! ## Paging data -/

/-- The fields of a page-table entry that the kernel sets; the remaining bits
of the word stay zero. -/
structure PageTableEntry where
  present : Bool
  rw : Bool
  user : Bool
  pbaseAddr : BitVec 20
  deriving DecidableEq

def PageTableEntry.zero : PageTableEntry := ⟨false, false, false, 0⟩

inductive FrameMark
  | freeFrame
  | usedFrame
  deriving DecidableEq

/-- Index of a page directory and of the page table it refers to. -/
abbrev DirSlot := Fin nrTasks

/-- The state of memory management. A page table has `TOTAL_PAGES` entries;
the routines check every index against that. `ram` holds the bytes of the
physical frames. -/
structure Mm where
  physMem : Nat → FrameMark
  pagusrTable : DirSlot → Nat → PageTableEntry
  dirCounter : DirSlot → Int
  programbreakTable : DirSlot → Nat
  ram : Nat → Nat → UInt8

/-! ## Tasks -/

/-- Index into the task array. -/
abbrev TaskId := Fin nrTasks

instance : LawfulBEq TaskId := inferInstance

inductive ProcessState
  | run
  | ready
  | blocked
  deriving DecidableEq

structure Stats where
  userTicks : Nat
  systemTicks : Nat
  blockedTicks : Nat
  readyTicks : Nat
  elapsedTotalTicks : Nat
  totalTrans : Nat
  remainingTicks : Nat
  deriving DecidableEq

def Stats.zero : Stats := ⟨0, 0, 0, 0, 0, 0, 0⟩

/-- An `unsigned long` in memory, lowest byte first. -/
def wordBytes (word : Nat) : List UInt8 :=
  [.ofNat word, .ofNat (word / 256), .ofNat (word / 65536), .ofNat (word / 16777216)]

def Stats.bytes (stats : Stats) : List UInt8 :=
  wordBytes stats.userTicks ++ wordBytes stats.systemTicks ++ wordBytes stats.blockedTicks ++
    wordBytes stats.readyTicks ++ wordBytes stats.elapsedTotalTicks ++
    wordBytes stats.totalTrans ++ wordBytes stats.remainingTicks

@[simp] theorem Stats.bytes_length (stats : Stats) : stats.bytes.length = 28 := rfl

/-- What a suspended kernel stack resumes: the routines that are waiting for a
`task_switch` to return, innermost first. -/
inductive Frame
  /-- `sched_next_rr` after its second `task_switch`. -/
  | schedNextRr
  | cpuIdle
  | retFromFork
  | sysSemWait
  /-- `sys_read_keyboard` on the path that queues behind another reader. -/
  | sysReadQueued
  /-- `sys_read_keyboard` in its loop. -/
  | sysReadLoop (buffer : Nat) (count i : Int)
  | sysExit
  | keyboardRoutine
  | clkRoutine
  deriving DecidableEq

/-- The part of the saved user context that system calls write. -/
structure UserContext where
  eax : Int
  eip : Nat
  esp : Nat
  deriving DecidableEq

/-- A task structure together with the kernel stack it shares its page with.
Its list links are kept with the other list nodes. -/
structure TaskUnion where
  pid : Int
  dirPagesBaseAddr : DirSlot
  kernelEsp : List Frame
  state : ProcessState
  quantum : Nat
  pStats : Stats
  semdestroyed : Bool
  posInDirCounter : DirSlot
  context : UserContext
  deriving DecidableEq

/-! ## Queues and semaphores -/

abbrev SemId := Fin nrSemaphores

inductive Queue
  | freequeue
  | readyqueue
  | keyboardqueue
  | blocked (sem : SemId)
  deriving DecidableEq, Fintype

/-- A semaphore without its list head, which is `Queue.blocked`. -/
structure Semaphore where
  counter : Int
  ownerPid : Int
  deriving DecidableEq

/-- The keyboard ring; the two pointers are offsets into `keybuffer`. -/
structure Circbuff where
  keybuffer : Nat → UInt8
  last : Nat
  first : Nat
  counter : Nat

/-! ## The kernel state -/

/-- All kernel variables other than list pointers. `clock` is the sequence of
values that successive time-stamp readings return, and `readings` how many have
been taken. `inKernel` holds between a `task_switch` and the moment the task
switched to is back in user mode. -/
structure Core where
  mm : Mm
  task : TaskId → TaskUnion
  idleTask : TaskId
  current : TaskId
  inKernel : Bool
  semArray : SemId → Semaphore
  globalPID : Int
  leftTicks : Nat
  zeosTicks : Nat
  circbuff : Circbuff
  keyboardReadersCount : TaskId → Int
  clock : Nat → Nat
  readings : Nat

/-- The kernel over some representation of its lists. -/
structure Kernel (σ : Type) where
  core : Core
  queues : σ

/-- The kernel as it is: its lists are pointers. -/
abbrev PointerKernel := Kernel (Links Queue TaskId)

/-- The kernel over checked sequences. -/
abbrev SequenceKernel := Kernel (Sequences Queue TaskId)

end Zeos
