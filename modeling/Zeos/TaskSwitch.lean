import Zeos.Foundation.Machine

/-! # The context switch

`task_switch` and what it calls, as the assembler has them, and the frames that
`init_idle`, `sys_fork` and `sys_clone` build for a task that has not run yet. The
kernel's pages are mapped to themselves in every directory, so the memory of the
kernel does not depend on CR3. Interrupts are disabled.
-/

namespace Zeos

open Foundation Foundation.Machine

inductive Routine
  | taskSwitch | innerTaskSwitch | writeMsr | setCr3
deriving DecidableEq, Repr

/-- The address that `inner_task_switch` needs. -/
inductive KernelLabel
  | tss
deriving DecidableEq, Repr

namespace Routine

def saveRegisters : List (Operation KernelLabel) :=
  [.push (.register .ebp),
    .mov (.register .esp) .ebp,
    .push (.register .esi),
    .push (.register .edi),
    .push (.register .ebx),
    .push (.memory 8 .ebp)]

def restoreRegisters : List (Operation KernelLabel) :=
  [.add 4 .esp,
    .pop .ebx,
    .pop .edi,
    .pop .esi,
    .mov (.register .ebp) .esp,
    .pop .ebp]

/-- `inner_task_switch` up to the call of `writeMSR`. -/
def setStack : List (Operation KernelLabel) :=
  [.push (.register .ebp),
    .mov (.register .esp) .ebp,
    .mov (.memory 8 .ebp) .ebx,
    .mov (.register .ebx) .esi,
    .add 4096 .esi,
    .lea .tss .edx,
    .movToMemory .esi 4 .edx,
    .push (.register .esi),
    .push (.immediate 0x175)]

def saveFrame : List (Operation KernelLabel) :=
  [.add 8 .esp,
    .mov (.register .ebp) .ecx,
    .and 0xFFF000 .ecx,
    .movToMemory .ebp 16 .ecx,
    .mov (.memory 4 .ecx) .edi,
    .cmp (.memory 4 .ebx) .edi]

def changeStack : List (Operation KernelLabel) :=
  [.mov (.memory 16 .ebx) .esp,
    .pop .ebp]

def writeMsrBody : List (Operation KernelLabel) :=
  [.push (.register .ebp),
    .mov (.register .esp) .ebp,
    .mov (.memory 8 .ebp) .ecx,
    .mov (.immediate 0) .edx,
    .mov (.memory 12 .ebp) .eax,
    .wrmsr,
    .mov (.register .ebp) .esp,
    .pop .ebp]

def setCr3Body : List (Operation KernelLabel) :=
  [.push (.register .ebp),
    .mov (.register .esp) .ebp,
    .mov (.memory 8 .ebp) .eax,
    .movToCr3 .eax,
    .pop .ebp]

/-- The position of `etiqueta` in `inner_task_switch`. -/
def etiqueta : Nat := 20

def code : Routine → List (Instruction Routine KernelLabel)
  | .taskSwitch =>
      saveRegisters.map .operation ++
        .call .innerTaskSwitch :: restoreRegisters.map .operation ++ [.ret]
  | .innerTaskSwitch =>
      setStack.map .operation ++ .call .writeMsr :: saveFrame.map .operation ++
        .je etiqueta :: .operation (.push (.memory 4 .ebx)) :: .call .setCr3 ::
        .operation (.add 4 .esp) :: changeStack.map .operation ++ [.ret]
  | .writeMsr => writeMsrBody.map .operation ++ [.ret]
  | .setCr3 => setCr3Body.map .operation ++ [.ret]

end Routine

/-- Where the parts of the kernel lie. A task is an element of `protected_tasks`, a
page below 16 MiB. -/
structure KernelImage (Task : Type) where
  tss : Word
  address : Routine → Nat → Word
  locate : Word → Option (Routine × Nat)
  locate_address : ∀ routine index, index < (Routine.code routine).length →
    locate (address routine index) = some (routine, index)
  cpuIdle : Word
  cpuIdle_outside : locate cpuIdle = none
  retFromFork : Word
  retFromFork_outside : locate retFromFork = none
  page : Task → BitVec 12
  page_injective : Function.Injective page
  tss_inside : tss.toNat + 8 ≤ 2 ^ 32
  tss_apart : ∀ task, tss.toNat + 8 ≤ (page task).toNat * 4096 ∨
    (page task).toNat * 4096 + 4096 ≤ tss.toNat + 4

namespace KernelImage

variable {Task : Type} (image : KernelImage Task)

def program : Program Routine KernelLabel where
  code := Routine.code
  resolve := fun | .tss => image.tss
  supervisor := id
  address := image.address
  locate := image.locate
  locate_address := image.locate_address

def base (task : Task) : Word := (image.page task).setWidth 32 <<< 12

def dirPages (memory : ByteMap) (task : Task) : Word := memory.load (image.base task + 4)

def kernelEsp (memory : ByteMap) (task : Task) : Word := memory.load (image.base task + 16)

def initIdle (idle : Task) (memory : ByteMap) : ByteMap :=
  let memory := memory.store (image.base idle + 16) (image.base idle + 4 * (1024 - 1))
  let memory := memory.store (image.kernelEsp memory idle) image.cpuIdle
  let memory := memory.store (image.base idle + 16) (image.kernelEsp memory idle - 4)
  memory.store (image.kernelEsp memory idle) 0

def initTask1 (task1 : Task) (cpu : Cpu) : Cpu :=
  let esp0 := image.base task1 + 4 * 1024
  { cpu with
    memory := cpu.memory.store (image.tss + 4) esp0
    msr := Function.update cpu.msr 0x175 ((0 : Word) ++ esp0)
    cr3 := image.dirPages (cpu.memory.store (image.tss + 4) esp0) task1 }

/-- The frame that `sys_fork` and `sys_clone` build, at the place of their own. -/
def forkFrame (child : Task) (cpu : Cpu) : ByteMap :=
  let current := cpu.registers.esp &&& 0xFFFFF000
  let offset := cpu.registers.ebp - current
  let stackpointer := image.base child + offset
  let memory := cpu.memory.store stackpointer image.retFromFork
  let stackpointer := stackpointer - 4
  let memory := memory.store stackpointer 0
  memory.store (image.base child + 16) stackpointer

/-- `sys_clone` then sets where the thread starts in user mode. -/
def cloneFrame (thread : Task) (function stack : Word) (cpu : Cpu) : ByteMap :=
  let memory := image.forkFrame thread cpu
  let memory := memory.store (image.base thread + 4 * (1024 - 5)) function
  memory.store (image.base thread + 4 * (1024 - 2)) stack

end KernelImage

end Zeos
