import Zeos.Mm

/-! # Scheduling

Queue moves, context switches and accounting (`sched.c`, `enter_system` and
`exit_system`). A routine that calls `task_switch` ends there: what its callers
still have to do is pushed on the stack of the task that is switched out, as a
list of frames, and runs when that task is switched to again.
-/

namespace Zeos

open Foundation

/-! ## The keyboard ring -/

def circbuffSize : Nat := 666

namespace Circbuff

def empty (ring : Circbuff) : Bool := ring.counter = 0

def full (ring : Circbuff) : Bool := ring.counter = circbuffSize

def push (ring : Circbuff) (k : UInt8) : Circbuff :=
  if ring.full then ring
  else
    { keybuffer := Function.update ring.keybuffer ring.last k
      last := if ring.last + 1 ≥ circbuffSize then 0 else ring.last + 1
      first := ring.first
      counter := ring.counter + 1 }

def front (ring : Circbuff) : UInt8 := ring.keybuffer ring.first

def pop (ring : Circbuff) : Circbuff :=
  if ring.empty then ring
  else
    { ring with
      first := if ring.first + 1 ≥ circbuffSize then 0 else ring.first + 1
      counter := ring.counter - 1 }

/-- `%eax` after a call of `circbuff_empty`: `sete` writes the comparison into the
lowest byte of the counter that was loaded. `sys.c`, in which the inclusion of
`circbuff.h` is commented out, takes the whole register for the result. -/
def emptyWord (ring : Circbuff) : Nat :=
  ring.counter / 256 * 256 + if ring.empty then 1 else 0

end Circbuff

namespace Core

/-! Each operation comes with the tasks after it, as records in which only what
it writes differs, and with the variables it leaves alone. -/

def modifyTask (core : Core) (t : TaskId) (change : TaskUnion → TaskUnion) : Core :=
  { core with task := Function.update core.task t (change (core.task t)) }

@[simp] theorem modifyTask_task (core : Core) (t other : TaskId)
    (change : TaskUnion → TaskUnion) :
    (core.modifyTask t change).task other =
      if other = t then change (core.task t) else core.task other := by
  by_cases same : other = t <;> simp [modifyTask, same]

@[simp] theorem modifyTask_frame (core : Core) (t : TaskId) (change : TaskUnion → TaskUnion) :
    (core.modifyTask t change).mm = core.mm ∧
      (core.modifyTask t change).idleTask = core.idleTask ∧
      (core.modifyTask t change).current = core.current ∧
      (core.modifyTask t change).inKernel = core.inKernel ∧
      (core.modifyTask t change).semArray = core.semArray ∧
      (core.modifyTask t change).globalPID = core.globalPID ∧
      (core.modifyTask t change).circbuff = core.circbuff ∧
      (core.modifyTask t change).keyboardReadersCount = core.keyboardReadersCount ∧
      (core.modifyTask t change).leftTicks = core.leftTicks :=
  ⟨rfl, rfl, rfl, rfl, rfl, rfl, rfl, rfl, rfl⟩

def setState (core : Core) (t : TaskId) (state : ProcessState) : Core :=
  core.modifyTask t fun union => { union with state := state }

@[simp] theorem setState_task (core : Core) (t other : TaskId) (state : ProcessState) :
    (core.setState t state).task other =
      { core.task other with state := if other = t then state else (core.task other).state } := by
  by_cases same : other = t <;> simp [setState, same]

@[simp] theorem setState_frame (core : Core) (t : TaskId) (state : ProcessState) :
    (core.setState t state).mm = core.mm ∧
      (core.setState t state).idleTask = core.idleTask ∧
      (core.setState t state).current = core.current ∧
      (core.setState t state).inKernel = core.inKernel ∧
      (core.setState t state).semArray = core.semArray ∧
      (core.setState t state).globalPID = core.globalPID ∧
      (core.setState t state).circbuff = core.circbuff ∧
      (core.setState t state).keyboardReadersCount = core.keyboardReadersCount ∧
      (core.setState t state).leftTicks = core.leftTicks :=
  ⟨rfl, rfl, rfl, rfl, rfl, rfl, rfl, rfl, rfl⟩

def setEax (core : Core) (t : TaskId) (value : Int) : Core :=
  core.modifyTask t fun union => { union with context := { union.context with eax := value } }

@[simp] theorem setEax_task (core : Core) (t other : TaskId) (value : Int) :
    (core.setEax t value).task other =
      { core.task other with
        context :=
          { (core.task other).context with
            eax := if other = t then value else (core.task other).context.eax } } := by
  by_cases same : other = t <;> simp [setEax, same]

@[simp] theorem setEax_frame (core : Core) (t : TaskId) (value : Int) :
    (core.setEax t value).mm = core.mm ∧
      (core.setEax t value).idleTask = core.idleTask ∧
      (core.setEax t value).current = core.current ∧
      (core.setEax t value).inKernel = core.inKernel ∧
      (core.setEax t value).semArray = core.semArray ∧
      (core.setEax t value).globalPID = core.globalPID ∧
      (core.setEax t value).circbuff = core.circbuff ∧
      (core.setEax t value).keyboardReadersCount = core.keyboardReadersCount ∧
      (core.setEax t value).leftTicks = core.leftTicks :=
  ⟨rfl, rfl, rfl, rfl, rfl, rfl, rfl, rfl, rfl⟩

def setSemdestroyed (core : Core) (t : TaskId) (value : Bool) : Core :=
  core.modifyTask t fun union => { union with semdestroyed := value }

@[simp] theorem setSemdestroyed_task (core : Core) (t other : TaskId) (value : Bool) :
    (core.setSemdestroyed t value).task other =
      { core.task other with
        semdestroyed := if other = t then value else (core.task other).semdestroyed } := by
  by_cases same : other = t <;> simp [setSemdestroyed, same]

@[simp] theorem setSemdestroyed_frame (core : Core) (t : TaskId) (value : Bool) :
    (core.setSemdestroyed t value).mm = core.mm ∧
      (core.setSemdestroyed t value).idleTask = core.idleTask ∧
      (core.setSemdestroyed t value).current = core.current ∧
      (core.setSemdestroyed t value).inKernel = core.inKernel ∧
      (core.setSemdestroyed t value).semArray = core.semArray ∧
      (core.setSemdestroyed t value).globalPID = core.globalPID ∧
      (core.setSemdestroyed t value).circbuff = core.circbuff ∧
      (core.setSemdestroyed t value).keyboardReadersCount = core.keyboardReadersCount ∧
      (core.setSemdestroyed t value).leftTicks = core.leftTicks :=
  ⟨rfl, rfl, rfl, rfl, rfl, rfl, rfl, rfl, rfl⟩

/-! ## Accounting -/

def wrap (value : Nat) : Nat := value % 4294967296

/-- The clock reading after `later` others. -/
def getTicks (core : Core) (later : Nat) : Nat := wrap (core.clock (core.readings + later))

def modifyStats (core : Core) (change : Stats → Stats) : Core :=
  core.modifyTask core.current fun union => { union with pStats := change union.pStats }

@[simp] theorem modifyStats_task (core : Core) (change : Stats → Stats) (t : TaskId) :
    (core.modifyStats change).task t =
      { core.task t with
        pStats := if t = core.current then change (core.task t).pStats
          else (core.task t).pStats } := by
  by_cases same : t = core.current <;> simp [modifyStats, same]

@[simp] theorem modifyStats_frame (core : Core) (change : Stats → Stats) :
    (core.modifyStats change).mm = core.mm ∧
      (core.modifyStats change).idleTask = core.idleTask ∧
      (core.modifyStats change).current = core.current ∧
      (core.modifyStats change).inKernel = core.inKernel ∧
      (core.modifyStats change).semArray = core.semArray ∧
      (core.modifyStats change).globalPID = core.globalPID ∧
      (core.modifyStats change).circbuff = core.circbuff ∧
      (core.modifyStats change).keyboardReadersCount = core.keyboardReadersCount ∧
      (core.modifyStats change).leftTicks = core.leftTicks :=
  ⟨rfl, rfl, rfl, rfl, rfl, rfl, rfl, rfl, rfl⟩

/-- Credit the time since the task's mark to one of its counters and set the
mark. The clock is read twice. -/
def chargeStats (core : Core) (credit : Stats → Nat → Stats) (stats : Stats) : Stats :=
  { credit stats (toUnsigned (core.getTicks 0 - stats.elapsedTotalTicks)) with
    elapsedTotalTicks := core.getTicks 1 }

def charge (core : Core) (credit : Stats → Nat → Stats) : Core :=
  { core.modifyStats (core.chargeStats credit) with readings := core.readings + 2 }

@[simp] theorem charge_task (core : Core) (credit : Stats → Nat → Stats) (t : TaskId) :
    (core.charge credit).task t =
      { core.task t with
        pStats := if t = core.current then core.chargeStats credit (core.task t).pStats
          else (core.task t).pStats } :=
  modifyStats_task core _ t

@[simp] theorem charge_frame (core : Core) (credit : Stats → Nat → Stats) :
    (core.charge credit).mm = core.mm ∧
      (core.charge credit).idleTask = core.idleTask ∧
      (core.charge credit).current = core.current ∧
      (core.charge credit).inKernel = core.inKernel ∧
      (core.charge credit).semArray = core.semArray ∧
      (core.charge credit).globalPID = core.globalPID ∧
      (core.charge credit).circbuff = core.circbuff ∧
      (core.charge credit).keyboardReadersCount = core.keyboardReadersCount ∧
      (core.charge credit).leftTicks = core.leftTicks :=
  ⟨rfl, rfl, rfl, rfl, rfl, rfl, rfl, rfl, rfl⟩

@[simp] def enterSystem (core : Core) : Core :=
  core.charge fun stats spent => { stats with userTicks := wrap (stats.userTicks + spent) }

@[simp] def chargeSystem (core : Core) : Core :=
  core.charge fun stats spent => { stats with systemTicks := wrap (stats.systemTicks + spent) }

@[simp] def chargeReady (core : Core) : Core :=
  core.charge fun stats spent => { stats with readyTicks := wrap (stats.readyTicks + spent) }

/-- `exit_system`. -/
@[simp] def exitSystem (core : Core) : Core := core.chargeSystem

@[simp] def countTransition (core : Core) : Core :=
  core.modifyStats fun stats => { stats with totalTrans := wrap (stats.totalTrans + 1) }

/-! ## Context switch -/

/-- Save where the current task will resume and continue in `next`. -/
def taskSwitch (core : Core) (next : TaskId) (frames : List Frame) : Core :=
  { core.modifyTask core.current fun union => { union with kernelEsp := frames } with
    current := next
    inKernel := true }

@[simp] theorem taskSwitch_task (core : Core) (next t : TaskId) (frames : List Frame) :
    (core.taskSwitch next frames).task t =
      { core.task t with
        kernelEsp := if t = core.current then frames else (core.task t).kernelEsp } := by
  by_cases same : t = core.current <;> simp [taskSwitch, modifyTask, same]

@[simp] theorem taskSwitch_frame (core : Core) (next : TaskId) (frames : List Frame) :
    (core.taskSwitch next frames).mm = core.mm ∧
      (core.taskSwitch next frames).idleTask = core.idleTask ∧
      (core.taskSwitch next frames).semArray = core.semArray ∧
      (core.taskSwitch next frames).globalPID = core.globalPID ∧
      (core.taskSwitch next frames).circbuff = core.circbuff ∧
      (core.taskSwitch next frames).keyboardReadersCount = core.keyboardReadersCount ∧
      (core.taskSwitch next frames).leftTicks = core.leftTicks ∧
      (core.taskSwitch next frames).current = next ∧
      (core.taskSwitch next frames).inKernel = true :=
  ⟨rfl, rfl, rfl, rfl, rfl, rfl, rfl, rfl, rfl⟩

/-- The handler is done: the current task is back in user mode. -/
def leaveKernel (core : Core) : Core := { core.exitSystem with inKernel := false }

@[simp] theorem leaveKernel_task (core : Core) (t : TaskId) :
    core.leaveKernel.task t = core.exitSystem.task t := rfl

@[simp] theorem leaveKernel_frame (core : Core) :
    (core.leaveKernel).mm = core.mm ∧
      (core.leaveKernel).idleTask = core.idleTask ∧
      (core.leaveKernel).current = core.current ∧
      (core.leaveKernel).semArray = core.semArray ∧
      (core.leaveKernel).globalPID = core.globalPID ∧
      (core.leaveKernel).circbuff = core.circbuff ∧
      (core.leaveKernel).keyboardReadersCount = core.keyboardReadersCount ∧
      (core.leaveKernel).leftTicks = core.leftTicks ∧
      (core.leaveKernel).inKernel = false :=
  ⟨rfl, rfl, rfl, rfl, rfl, rfl, rfl, rfl, rfl⟩

/-- A system call is done: store the result in the saved context and leave. -/
@[simp] def sysret (core : Core) (result : Int) : Core :=
  (core.setEax core.current result).leaveKernel

/-! ## Quantum -/

def updateSchedDataRr (core : Core) : Core :=
  { core with leftTicks := toUnsigned (core.leftTicks - 1) }

/-- The transition counter goes up here and again after the switch. -/
def needsSchedRr (core : Core) : Core × Bool :=
  if core.leftTicks = 0 then (core.countTransition, true) else (core, false)

end Core

namespace Kernel

variable {σ : Type} [ListOps σ Queue TaskId]

/-! ## List routines on the kernel's queues -/

def liftList (kernel : Kernel σ) (result : Except ListFault σ) : Except Fault (Kernel σ) :=
  match result with
  | .ok queues => .ok { kernel with queues := queues }
  | .error reason => .error (.list reason)

def initHead (kernel : Kernel σ) (queue : Queue) : Except Fault (Kernel σ) :=
  kernel.liftList (ListOps.initHead kernel.queues queue)

def add (kernel : Kernel σ) (t : TaskId) (queue : Queue) : Except Fault (Kernel σ) :=
  kernel.liftList (ListOps.add kernel.queues t queue)

def addTail (kernel : Kernel σ) (t : TaskId) (queue : Queue) : Except Fault (Kernel σ) :=
  kernel.liftList (ListOps.addTail kernel.queues t queue)

def del (kernel : Kernel σ) (t : TaskId) : Except Fault (Kernel σ) :=
  kernel.liftList (ListOps.del kernel.queues t)

def isEmpty (kernel : Kernel σ) (queue : Queue) : Bool := ListOps.isEmpty kernel.queues queue

def first (kernel : Kernel σ) (queue : Queue) : Except Fault TaskId :=
  match ListOps.first kernel.queues queue with
  | .ok t => .ok t
  | .error reason => .error (.list reason)

/-- Change everything but the lists. -/
def mapCore (kernel : Kernel σ) (change : Core → Core) : Kernel σ :=
  { kernel with core := change kernel.core }

/-! ## `sched.c` -/

def currentTask (kernel : Kernel σ) : TaskUnion := kernel.core.task kernel.core.current

/-- The state a task gets with its new queue; no queue means running. -/
def stateIn : Option Queue → ProcessState
  | some .readyqueue => .ready
  | none => .run
  | some _ => .blocked

def updateProcessStateRr (kernel : Kernel σ) (t : TaskId) (dst : Option Queue) :
    Except Fault (Kernel σ) := do
  let kernel ← if (kernel.core.task t).state ≠ .run then kernel.del t else .ok kernel
  let kernel ← match dst with
    | some queue => kernel.addTail t queue
    | none => .ok kernel
  return kernel.mapCore fun core => core.setState t (stateIn dst)

/-- `frames` is what the callers do after the switch back. The path through the
idle task skips the accounting that follows the other `task_switch`. -/
def schedNextRr (kernel : Kernel σ) (frames : List Frame) : Except Fault (Kernel σ) := do
  if kernel.isEmpty .readyqueue then
    return kernel.mapCore fun core => core.taskSwitch core.idleTask frames
  else
    let next ← kernel.first .readyqueue
    let kernel ← kernel.updateProcessStateRr next none
    return kernel.mapCore fun core =>
      let core := core.chargeSystem
      let core := { core with leftTicks := (core.task next).quantum }
      core.taskSwitch next (.schedNextRr :: frames)

/-- What `sched_next_rr` does once its task is dispatched again. -/
def schedNextRrTail (kernel : Kernel σ) : Kernel σ :=
  kernel.mapCore fun core => core.countTransition.chargeReady

def schedule (kernel : Kernel σ) (frames : List Frame) : Except Fault (Kernel σ) := do
  let (core, quantumOver) := kernel.core.updateSchedDataRr.needsSchedRr
  let kernel := { kernel with core := core }
  if quantumOver then
    let kernel ←
      if kernel.core.current ≠ kernel.core.idleTask then
        kernel.updateProcessStateRr kernel.core.current (some .readyqueue)
      else .ok kernel
    kernel.schedNextRr frames
  else return kernel

end Kernel

end Zeos
