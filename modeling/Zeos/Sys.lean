import Zeos.Sched

/-! # System calls

The bodies of the system calls (`sys.c`). A body returns its result, or `none`
when it gave up the processor: then the frames it left on the task's stack
finish the call.
-/

namespace Zeos

open Foundation

/-- `n_sem` as an index of `sem_array`, when it passes the range check. -/
def semIndex (nSem : Int) : Option SemId :=
  if h : 0 ≤ nSem ∧ nSem < nrSemaphores then
    some ⟨nSem.toNat, by have := h.2; omega⟩
  else none

/-- The increment of an `int`, which must not overflow. -/
def increment (value : Int) : Except Fault Int :=
  if value < 2147483647 then .ok (value + 1) else .error .signedOverflow

namespace Core

@[simp] def setMm (core : Core) (mm : Mm) : Core := { core with mm := mm }

def setSem (core : Core) (sem : SemId) (value : Semaphore) : Core :=
  { core with semArray := Function.update core.semArray sem value }

def setCounter (core : Core) (sem : SemId) (counter : Int) : Core :=
  core.setSem sem { core.semArray sem with counter := counter }

@[simp] theorem setCounter_semArray (core : Core) (sem other : SemId) (counter : Int) :
    (core.setCounter sem counter).semArray other =
      { core.semArray other with
        counter := if other = sem then counter else (core.semArray other).counter } := by
  by_cases same : other = sem <;> simp [setCounter, setSem, same]

@[simp] theorem setCounter_frame (core : Core) (sem : SemId) (counter : Int) :
    (core.setCounter sem counter).mm = core.mm ∧
      (core.setCounter sem counter).idleTask = core.idleTask ∧
      (core.setCounter sem counter).current = core.current ∧
      (core.setCounter sem counter).inKernel = core.inKernel ∧
      (core.setCounter sem counter).globalPID = core.globalPID ∧
      (core.setCounter sem counter).circbuff = core.circbuff ∧
      (core.setCounter sem counter).keyboardReadersCount = core.keyboardReadersCount ∧
      (core.setCounter sem counter).leftTicks = core.leftTicks ∧
      (core.setCounter sem counter).task = core.task :=
  ⟨rfl, rfl, rfl, rfl, rfl, rfl, rfl, rfl, rfl⟩

def setOwner (core : Core) (sem : SemId) (ownerPid : Int) : Core :=
  core.setSem sem { core.semArray sem with ownerPid := ownerPid }

@[simp] theorem setOwner_semArray (core : Core) (sem other : SemId) (ownerPid : Int) :
    (core.setOwner sem ownerPid).semArray other =
      { core.semArray other with
        ownerPid := if other = sem then ownerPid else (core.semArray other).ownerPid } := by
  by_cases same : other = sem <;> simp [setOwner, setSem, same]

@[simp] theorem setOwner_frame (core : Core) (sem : SemId) (ownerPid : Int) :
    (core.setOwner sem ownerPid).mm = core.mm ∧
      (core.setOwner sem ownerPid).idleTask = core.idleTask ∧
      (core.setOwner sem ownerPid).current = core.current ∧
      (core.setOwner sem ownerPid).inKernel = core.inKernel ∧
      (core.setOwner sem ownerPid).globalPID = core.globalPID ∧
      (core.setOwner sem ownerPid).circbuff = core.circbuff ∧
      (core.setOwner sem ownerPid).keyboardReadersCount = core.keyboardReadersCount ∧
      (core.setOwner sem ownerPid).leftTicks = core.leftTicks ∧
      (core.setOwner sem ownerPid).task = core.task :=
  ⟨rfl, rfl, rfl, rfl, rfl, rfl, rfl, rfl, rfl⟩

/-- The byte copy of the current task's page over another task's. -/
def copyUnion (core : Core) (child : TaskId) : Core :=
  core.modifyTask child fun _ => core.task core.current

@[simp] theorem copyUnion_task (core : Core) (child t : TaskId) :
    (core.copyUnion child).task t = if t = child then core.task core.current else core.task t :=
  modifyTask_task core child t _

@[simp] theorem copyUnion_frame (core : Core) (child : TaskId) :
    (core.copyUnion child).mm = core.mm ∧
      (core.copyUnion child).idleTask = core.idleTask ∧
      (core.copyUnion child).current = core.current ∧
      (core.copyUnion child).inKernel = core.inKernel ∧
      (core.copyUnion child).semArray = core.semArray ∧
      (core.copyUnion child).globalPID = core.globalPID ∧
      (core.copyUnion child).circbuff = core.circbuff ∧
      (core.copyUnion child).keyboardReadersCount = core.keyboardReadersCount ∧
      (core.copyUnion child).leftTicks = core.leftTicks :=
  ⟨rfl, rfl, rfl, rfl, rfl, rfl, rfl, rfl, rfl⟩

def allocateDir (core : Core) (t : TaskId) : Core :=
  match core.mm.allocateDir with
  | (mm, some slot) =>
      (core.setMm mm).modifyTask t fun union =>
        { union with dirPagesBaseAddr := slot, posInDirCounter := slot }
  | (mm, none) => core.setMm mm

@[simp] theorem allocateDir_task (core : Core) (t other : TaskId) :
    (core.allocateDir t).task other =
      { core.task other with
        dirPagesBaseAddr := if other = t then core.mm.freeSlot.getD (core.task t).dirPagesBaseAddr
          else (core.task other).dirPagesBaseAddr
        posInDirCounter := if other = t then core.mm.freeSlot.getD (core.task t).posInDirCounter
          else (core.task other).posInDirCounter } := by
  unfold allocateDir Mm.allocateDir
  by_cases same : other = t <;> cases core.mm.freeSlot <;> simp [same]

@[simp] theorem allocateDir_mm (core : Core) (t : TaskId) :
    (core.allocateDir t).mm = core.mm.allocateDir.1 := by
  unfold allocateDir Mm.allocateDir
  cases core.mm.freeSlot <;> simp

@[simp] theorem allocateDir_frame (core : Core) (t : TaskId) :
    (core.allocateDir t).idleTask = core.idleTask ∧
      (core.allocateDir t).current = core.current ∧
      (core.allocateDir t).inKernel = core.inKernel ∧
      (core.allocateDir t).semArray = core.semArray ∧
      (core.allocateDir t).globalPID = core.globalPID ∧
      (core.allocateDir t).circbuff = core.circbuff ∧
      (core.allocateDir t).keyboardReadersCount = core.keyboardReadersCount ∧
      (core.allocateDir t).leftTicks = core.leftTicks := by
  unfold allocateDir Mm.allocateDir
  cases core.mm.freeSlot <;> simp

/-- The end of `sys_fork` and `sys_clone`: number the new task, and patch its
stack so that it resumes in `ret_from_fork`. -/
def adopt (core : Core) (child : TaskId) (globalPID : Int) : Core :=
  { core with globalPID := globalPID }.modifyTask child fun union =>
    { union with
      pid := core.globalPID
      kernelEsp := [.retFromFork]
      state := .ready
      pStats := .zero }

@[simp] theorem adopt_task (core : Core) (child other : TaskId) (globalPID : Int) :
    (core.adopt child globalPID).task other =
      { core.task other with
        pid := if other = child then core.globalPID else (core.task other).pid
        kernelEsp := if other = child then [.retFromFork] else (core.task other).kernelEsp
        state := if other = child then .ready else (core.task other).state
        pStats := if other = child then .zero else (core.task other).pStats } := by
  by_cases same : other = child <;> simp [adopt, same]

@[simp] theorem adopt_frame (core : Core) (child : TaskId) (globalPID : Int) :
    (core.adopt child globalPID).mm = core.mm ∧
      (core.adopt child globalPID).idleTask = core.idleTask ∧
      (core.adopt child globalPID).current = core.current ∧
      (core.adopt child globalPID).inKernel = core.inKernel ∧
      (core.adopt child globalPID).semArray = core.semArray ∧
      (core.adopt child globalPID).circbuff = core.circbuff ∧
      (core.adopt child globalPID).keyboardReadersCount = core.keyboardReadersCount ∧
      (core.adopt child globalPID).leftTicks = core.leftTicks ∧
      (core.adopt child globalPID).globalPID = globalPID :=
  ⟨rfl, rfl, rfl, rfl, rfl, rfl, rfl, rfl, rfl⟩

/-- `sys_get_stats` on the remaining ticks of a task: only the current one has
any. -/
def setRemaining (core : Core) (t : TaskId) : Core :=
  core.modifyTask t fun union =>
    { union with pStats := { union.pStats with
        remainingTicks := if core.current = t then core.leftTicks else 0 } }

theorem setRemaining_task (core : Core) (t other : TaskId) :
    (core.setRemaining t).task other =
      { core.task other with pStats := ((core.setRemaining t).task other).pStats } := by
  by_cases same : other = t <;> simp [setRemaining, same]

end Core

namespace Kernel

variable {σ : Type} [ListOps σ Queue TaskId]

/-! ## Process creation -/

def sysFork (kernel : Kernel σ) : Except Fault (Kernel σ × Int) := do
  if kernel.isEmpty .freequeue then
    return (kernel, -eagain)
  else
    let child ← kernel.first .freequeue
    let kernel ← kernel.del child
    let kernel := kernel.mapCore fun core => (core.copyUnion child).allocateDir child
    let father := kernel.currentTask
    let childTp := (kernel.core.task child).dirPagesBaseAddr
    match ← kernel.core.mm.forkPages childTp father.dirPagesBaseAddr father.posInDirCounter with
    | (mm, false) => return (kernel.mapCore fun core => core.setMm mm, -enomem)
    | (mm, true) => do
        let kernel := kernel.mapCore fun core => core.setMm mm
        let pid := kernel.core.globalPID
        let globalPID ← increment pid
        let kernel ← (kernel.mapCore fun core => core.adopt child globalPID).addTail child
          .readyqueue
        return (kernel, pid)

/-- The thread starts at `function` with `stack` as its stack pointer. -/
def sysClone (kernel : Kernel σ) (function stack : Nat) : Except Fault (Kernel σ × Int) := do
  if kernel.isEmpty .freequeue then
    return (kernel, -eagain)
  else if toSigned function < pagLogInitCode * pageSize ∨ toSigned function ≥ heapStart then
    return (kernel, -einval)
  else if toSigned stack < pagLogInitData * pageSize ∨ toSigned stack ≥ heapStart then
    return (kernel, -einval)
  else
    let child ← kernel.first .freequeue
    let kernel ← kernel.del child
    let kernel := kernel.mapCore fun core => core.copyUnion child
    let pos := kernel.currentTask.posInDirCounter
    let kernel := kernel.mapCore fun core => core.setMm (core.mm.retainDir pos)
    let pid := kernel.core.globalPID
    let globalPID ← increment pid
    let kernel ← (kernel.mapCore fun core => core.adopt child globalPID).addTail child .readyqueue
    let kernel := kernel.mapCore fun core => core.modifyTask child fun union =>
      { union with context := { union.context with eip := function, esp := stack } }
    return (kernel, pid)

/-! ## Semaphores -/

def sysSemInit (kernel : Kernel σ) (nSem : Int) (value : Nat) :
    Except Fault (Kernel σ × Int) := do
  match semIndex nSem with
  | none => return (kernel, -einval)
  | some sem =>
      if (kernel.core.semArray sem).ownerPid ≠ -1 then
        return (kernel, -ebusy)
      else
        let kernel := kernel.mapCore fun core => core.setCounter sem (toSigned value)
        let kernel ← kernel.initHead (.blocked sem)
        let kernel := kernel.mapCore fun core => core.setOwner sem (core.task core.current).pid
        return (kernel, 0)

/-- The end of `sys_sem_wait`, after the wait: a pending destroy indication is
consumed. -/
def sysSemWaitTail (kernel : Kernel σ) : Kernel σ × Int :=
  if kernel.currentTask.semdestroyed then
    (kernel.mapCore fun core => core.setSemdestroyed core.current false, -einval)
  else (kernel, 0)

def sysSemWait (kernel : Kernel σ) (nSem : Int) : Except Fault (Kernel σ × Option Int) := do
  match semIndex nSem with
  | none => return (kernel, some (-einval))
  | some sem =>
      if (kernel.core.semArray sem).ownerPid = -1 then
        return (kernel, some (-einval))
      else if (kernel.core.semArray sem).counter ≤ 0 then
        let kernel := kernel.mapCore fun core => core.setState core.current .blocked
        let kernel ← kernel.addTail kernel.core.current (.blocked sem)
        let kernel ← kernel.schedNextRr [.sysSemWait]
        return (kernel, none)
      else
        let kernel := kernel.mapCore fun core =>
          core.setCounter sem ((core.semArray sem).counter - 1)
        let (kernel, result) := kernel.sysSemWaitTail
        return (kernel, some result)

def sysSemSignal (kernel : Kernel σ) (nSem : Int) : Except Fault (Kernel σ × Int) := do
  match semIndex nSem with
  | none => return (kernel, -einval)
  | some sem =>
      if (kernel.core.semArray sem).ownerPid = -1 then
        return (kernel, -einval)
      else if kernel.isEmpty (.blocked sem) then
        let counter ← increment (kernel.core.semArray sem).counter
        return (kernel.mapCore fun core => core.setCounter sem counter, 0)
      else
        let threadTask ← kernel.first (.blocked sem)
        let kernel ← kernel.del threadTask
        let kernel := kernel.mapCore fun core => core.setState threadTask .ready
        let kernel ← kernel.addTail threadTask .readyqueue
        return (kernel, 0)

/-- The loop of `sys_sem_destroy`, for at most as many rounds as the first
argument says. -/
def releaseWaiters (sem : SemId) : Nat → Kernel σ → Except Fault (Kernel σ)
  | 0, kernel => if kernel.isEmpty (.blocked sem) then .ok kernel else .error .endlessLoop
  | rounds + 1, kernel =>
      if kernel.isEmpty (.blocked sem) then .ok kernel
      else do
        let threadTask ← kernel.first (.blocked sem)
        let kernel ← kernel.del threadTask
        let kernel := kernel.mapCore fun core =>
          (core.setSemdestroyed threadTask true).setState threadTask .ready
        let kernel ← kernel.addTail threadTask .readyqueue
        releaseWaiters sem rounds kernel

def sysSemDestroy (kernel : Kernel σ) (nSem : Int) : Except Fault (Kernel σ × Int) := do
  match semIndex nSem with
  | none => return (kernel, -einval)
  | some sem =>
      if (kernel.core.semArray sem).ownerPid = -1 then
        return (kernel, -einval)
      else if (kernel.core.semArray sem).ownerPid ≠ kernel.currentTask.pid then
        return (kernel, -eperm)
      else
        let kernel ← releaseWaiters sem nrTasks kernel
        return (kernel.mapCore fun core => core.setOwner sem (-1), 0)

/-! ## Exit -/

/-- One round of the loop that destroys the semaphores the task owns. -/
def destroyOwned (i : Nat) (kernel : Kernel σ) : Except Fault (Kernel σ) := do
  match semIndex i with
  | none => return kernel
  | some sem =>
      if (kernel.core.semArray sem).ownerPid = kernel.currentTask.pid then
        let (kernel, _) ← kernel.sysSemDestroy i
        return kernel
      else return kernel

def sysExit (kernel : Kernel σ) : Except Fault (Kernel σ) := do
  let kernel ← countedLoop destroyOwned 0 nrSemaphores kernel
  let task := kernel.currentTask
  let mm ← kernel.core.mm.releaseDir task.dirPagesBaseAddr task.posInDirCounter
  let kernel := kernel.mapCore fun core => core.setMm mm
  let kernel := kernel.mapCore fun core =>
    core.modifyTask core.current fun union => { union with pid := -1 }
  let kernel ← kernel.addTail kernel.core.current .freequeue
  kernel.schedNextRr [.sysExit]

/-! ## Reading the keyboard -/

def checkFd (fd : Int) (writing : Bool) : Int :=
  if (fd ≠ 1 ∧ writing) ∨ (fd ≠ 0 ∧ ¬ writing) then -9
  else if (fd = 1 ∧ ¬ writing) ∨ (fd = 0 ∧ writing) then -13
  else 0

def popInto (kernel : Kernel σ) (address : Nat) : Except Fault (Kernel σ) := do
  let mm ← kernel.core.mm.storeByte kernel.currentTask.dirPagesBaseAddr address
    kernel.core.circbuff.front
  return kernel.mapCore fun core => { core with mm := mm, circbuff := core.circbuff.pop }

/-- The loop of `sys_read_keyboard` from its current `i`. -/
def readLoop (buffer : Nat) (count i : Int) (kernel : Kernel σ) :
    Except Fault (Kernel σ × Option Int) := do
  if i < count then
    if kernel.core.circbuff.emptyWord ≠ 0 then
      let kernel := kernel.mapCore fun core => core.setState core.current .blocked
      let kernel ← kernel.add kernel.core.current .keyboardqueue
      let kernel ← kernel.schedNextRr [.sysReadLoop buffer count i]
      return (kernel, none)
    else
      let kernel ← kernel.popInto (toUnsigned (buffer + i))
      readLoop buffer count (i + 1) kernel
  else return (kernel, some 0)
termination_by (count - i).toNat

/-- `i` is the value that the uninitialised loop counter happens to have. -/
def sysReadKeyboard (kernel : Kernel σ) (buffer : Nat) (count i : Int) :
    Except Fault (Kernel σ × Option Int) := do
  let kernel := kernel.mapCore fun core =>
    { core with
      keyboardReadersCount := Function.update core.keyboardReadersCount core.current count }
  if kernel.isEmpty .keyboardqueue then
    readLoop buffer count i kernel
  else
    let kernel ← kernel.updateProcessStateRr kernel.core.current (some .keyboardqueue)
    let kernel ← kernel.schedNextRr [.sysReadQueued]
    return (kernel, none)

def sysRead (kernel : Kernel σ) (fd : Int) (buffer : Nat) (count i : Int) :
    Except Fault (Kernel σ × Option Int) :=
  if checkFd fd false < 0 then .ok (kernel, some (-checkFd fd false))
  else if buffer = 0 then .ok (kernel, some efault)
  else if count < 0 then .ok (kernel, some einval)
  else if toSigned buffer < pagLogInitData * pageSize ∨ toSigned buffer ≥ heapStart then
    .ok (kernel, some efault)
  else kernel.sysReadKeyboard buffer count i

/-! ## Writing to the console -/

def sizeBlock : Int := 4

/-- The loop of `sys_write` from its current `i`, with the characters that it
prints. A chunk is copied to the kernel's buffer byte by byte. -/
def writeLoop (mm : Mm) (pt : DirSlot) (buffer : Nat) (size i : Int) :
    Except Fault (List UInt8) := do
  if i < size then
    let currSize := if size - i < sizeBlock then size - i else sizeBlock
    let chunk ← mm.loadBytes pt currSize.toNat (toUnsigned (buffer + i))
    if i + sizeBlock < 2147483648 then
      let rest ← writeLoop mm pt buffer size (i + sizeBlock)
      return chunk ++ rest
    else .error .signedOverflow
  else return []
termination_by (size - i).toNat
decreasing_by
  unfold sizeBlock
  omega

/-- The error results are positive numbers here too. -/
def sysWrite (kernel : Kernel σ) (fd : Int) (buffer : Nat) (size : Int) :
    Except Fault (List UInt8 × Int) :=
  if checkFd fd true < 0 then .ok ([], -checkFd fd true)
  else if buffer = 0 then .ok ([], efault)
  else if size < 0 then .ok ([], einval)
  else do
    let printed ← writeLoop kernel.core.mm kernel.currentTask.dirPagesBaseAddr buffer size 0
    return (printed, 0)

/-! ## Statistics -/

/-- `access_ok`. The case of `VERIFY_WRITE` falls through to the other one. -/
def accessOk (write : Bool) (addr size : Nat) : Bool :=
  let addrIni := addr / pageSize
  let addrFin := Core.wrap (addr + size) / pageSize
  if addrFin < addrIni then false
  else (write && pagLogInitData ≤ addrIni && addrFin ≤ pagLogInitHeap) ||
    (pagLogInitCode ≤ addrIni && addrFin ≤ pagLogInitHeap)

/-- The errors are positive numbers, as in `sys_read`. -/
def sysGetStats (kernel : Kernel σ) (pid : Int) (st : Nat) : Except Fault (Kernel σ × Int) := do
  if st = 0 ∨ accessOk false st 28 = false then
    return (kernel, efault)
  else if pid < 0 then
    return (kernel, einval)
  else
    match (List.finRange nrTasks).find? fun t => (kernel.core.task t).pid = pid with
    | none => return (kernel, esrch)
    | some t =>
        let kernel := kernel.mapCore fun core => core.setRemaining t
        let mm ← kernel.core.mm.storeBytes kernel.currentTask.dirPagesBaseAddr st
          (kernel.core.task t).pStats.bytes
        return (kernel.mapCore fun core => core.setMm mm, 0)

/-! ## The heap -/

def sysSbrk (kernel : Kernel σ) (amount : Int) : Except Fault (Kernel σ × Int) := do
  let task := kernel.currentTask
  match ← kernel.core.mm.sbrk task.dirPagesBaseAddr task.posInDirCounter amount with
  | (mm, none) => return (kernel.mapCore fun core => core.setMm mm, -enomem)
  | (mm, some last) => return (kernel.mapCore fun core => core.setMm mm, last)

end Kernel

end Zeos
