import Zeos.Foundation.TransitionSystem
import Zeos.Sys

/-! # The running system

Start-up (`system.c`), the two interrupt handlers (`interrupt.c`) and the system
call handler, put together as a transition system: one step is an interrupt or a
system call in user mode up to its return or the next context switch, or the
resumption of the task that was switched to.
-/

namespace Zeos

open Foundation

/-! ## Start-up -/

/-- What the kernel does not determine itself: the page of `protected_tasks[0]`
in the linked image, the values of the time-stamp counter, and the contents of
memory once the user image has been moved. -/
structure Machine where
  protectedTasks : Nat
  protectedTasks_pos : 0 < protectedTasks
  protectedTasks_lt : protectedTasks + 11 < numPagKernel
  clock : Nat → Nat
  ram : Nat → Nat → UInt8

def Machine.sample : Machine where
  protectedTasks := 17
  protectedTasks_pos := by decide
  protectedTasks_lt := by decide
  clock := id
  ram _ _ := 0

/-- `init_table_pages`: the kernel pages map to themselves, except page 0 and
the two pages around the task array. -/
def Machine.initialEntry (machine : Machine) (page : Nat) : PageTableEntry :=
  if page = 0 ∨ numPagKernel ≤ page then .zero
  else if page = machine.protectedTasks ∨ page = machine.protectedTasks + 11 then
    ⟨false, true, false, BitVec.ofNat 20 page⟩
  else ⟨true, true, false, BitVec.ofNat 20 page⟩

def initialMark (frame : Nat) : FrameMark :=
  if frame < numPagKernel then .usedFrame else .freeFrame

def Machine.initialMm (machine : Machine) : Mm where
  physMem := initialMark
  pagusrTable _ := machine.initialEntry
  dirCounter _ := 0
  programbreakTable _ := 0
  ram := machine.ram

namespace Mm

/-- Frame number field for a result of `alloc_frame`, whose failure is -1. -/
def frameField : Option Nat → BitVec 20
  | some frame => BitVec.ofNat 20 frame
  | none => BitVec.ofInt 20 (-1)

/-- Give `count` pages from `page` on a frame of their own. -/
def mapFreshPages (rw : Bool) (pt : DirSlot) : Nat → Nat → Mm → Mm
  | 0, _, mm => mm
  | count + 1, page, mm =>
      let (mm, frame) := mm.allocFrame
      mapFreshPages rw pt count (page + 1) (mm.setEntry pt page ⟨true, rw, true, frameField frame⟩)

def setUserPages (mm : Mm) (pt : DirSlot) : Mm :=
  mapFreshPages true pt numPagData pagLogInitData
    (mapFreshPages false pt numPagCode pagLogInitCode mm)

end Mm

def TaskUnion.zero : TaskUnion where
  pid := 0
  dirPagesBaseAddr := 0
  kernelEsp := []
  state := .run
  quantum := 0
  pStats := .zero
  semdestroyed := false
  posInDirCounter := 0
  context := ⟨0, 0, 0⟩

/-- The variables before `main` runs. `init_mm` has set up the page tables and
taken a directory for `task[0]`. -/
def Machine.initialCore (machine : Machine) : Core :=
  let core : Core :=
    { mm := machine.initialMm
      task := fun _ => .zero
      idleTask := 0
      current := 0
      inKernel := false
      semArray := fun _ => ⟨0, -1⟩
      globalPID := 2
      leftTicks := 0
      zeosTicks := 0
      circbuff := ⟨fun _ => 0, 0, 0, 0⟩
      keyboardReadersCount := fun _ => 0
      clock := machine.clock
      readings := 0 }
  core.allocateDir 0

namespace Kernel

variable {σ : Type} [ListOps σ Queue TaskId]

def initFreequeue (kernel : Kernel σ) : Except Fault (Kernel σ) := do
  let kernel ← kernel.initHead .freequeue
  (List.finRange nrTasks).foldlM (fun kernel t =>
    (kernel.mapCore fun core => core.modifyTask t fun union =>
      { union with pid := -1 }).addTail t .freequeue) kernel

def initSemaphores (kernel : Kernel σ) : Except Fault (Kernel σ) :=
  (List.finRange nrSemaphores).foldlM (fun kernel sem => kernel.initHead (.blocked sem)) kernel

/-- The part of `init_idle` and `init_task1` that fills in the task structure. -/
def initTask (kernel : Kernel σ) (t : TaskId) (pid : Int) (frames : List Frame)
    (context : UserContext) : Kernel σ :=
  kernel.mapCore fun core =>
    (core.modifyTask t fun union =>
      { union with
        pid := pid
        semdestroyed := false
        quantum := 50
        pStats := { union.pStats with remainingTicks := 50 }
        kernelEsp := frames
        context := context }).allocateDir t

def initIdle (kernel : Kernel σ) : Except Fault (Kernel σ) := do
  let t ← kernel.first .freequeue
  let kernel ← kernel.del t
  return (kernel.initTask t 0 [.cpuIdle] ⟨0, 0, 0⟩).mapCore fun core =>
    { core with idleTask := t }

def initTask1 (kernel : Kernel σ) : Except Fault (Kernel σ) := do
  let t ← kernel.first .freequeue
  let kernel ← kernel.del t
  let userEsp := pagLogInitCode * pageSize + (numPagCode + numPagData) * pageSize - 16
  return (kernel.initTask t 1 [] ⟨0, pagLogInitCode * pageSize, userEsp⟩).mapCore fun core =>
    let slot := (core.task t).posInDirCounter
    let core := core.setState t .run
    { core with
      current := t
      leftTicks := (core.task t).quantum
      mm := (core.mm.setUserPages (core.task t).dirPagesBaseAddr).setBreak slot heapStart }

/-- `main` up to the jump to user mode. -/
def boot (machine : Machine) (queues : σ) : Except Fault (Kernel σ) := do
  let kernel ← (⟨machine.initialCore, queues⟩ : Kernel σ).initFreequeue
  let kernel ← kernel.initHead .readyqueue
  let kernel ← kernel.initHead .keyboardqueue
  let kernel ← kernel.initSemaphores
  let kernel ← kernel.initIdle
  kernel.initTask1

/-! ## Interrupts -/

def charMap : List UInt8 :=
  [0, 0, 49, 50, 51, 52, 53, 54, 55, 56, 57, 48, 39, 161, 0, 0,
    113, 119, 101, 114, 116, 121, 117, 105, 111, 112, 96, 43, 0, 0, 97, 115,
    100, 102, 103, 104, 106, 107, 108, 241, 0, 186, 0, 231, 122, 120, 99, 118,
    98, 110, 109, 44, 46, 45, 0, 42, 0, 0, 0, 0, 0, 0, 0, 0,
    0, 0, 0, 0, 0, 0, 0, 55, 56, 57, 45, 52, 53, 54, 43, 49,
    50, 51, 48, 0, 0, 0, 60, 0, 0, 0, 0, 0, 0, 0, 0, 0,
    0, 0]

def charOf (llegit : UInt8) : UInt8 := charMap.getD llegit.toNat 67

/-- The key press of a waiting reader: the character goes into the ring, and
the reader is made ready when the ring is full or holds what it still needs. -/
def deliverKey (kernel : Kernel σ) (result : UInt8) : Except Fault (Kernel σ) := do
  let kernel := kernel.mapCore fun core => { core with circbuff := core.circbuff.push result }
  let reader ← kernel.first .keyboardqueue
  let remaining := kernel.core.keyboardReadersCount reader
  let count := kernel.core.circbuff.counter
  if kernel.core.circbuff.full ∨ (count : Int) = remaining then
    let kernel := kernel.mapCore fun core =>
      { core with
        keyboardReadersCount :=
          Function.update core.keyboardReadersCount reader (remaining - count) }
    let kernel ← kernel.del reader
    let kernel := kernel.mapCore fun core => core.setState reader .ready
    let kernel ← kernel.add reader .readyqueue
    let kernel ← kernel.updateProcessStateRr kernel.core.current (some .readyqueue)
    kernel.schedNextRr [.keyboardRoutine]
  else return kernel

/-- Back to user mode, unless the handler switched to another task. -/
def leaveUnlessSwitched (kernel : Kernel σ) : Kernel σ :=
  if kernel.core.inKernel then kernel else kernel.mapCore Core.leaveKernel

def keyboardRoutine (kernel : Kernel σ) (llegit : UInt8) : Except Fault (Kernel σ) := do
  let kernel := kernel.mapCore Core.enterSystem
  if kernel.core.circbuff.full ∨ 128 ≤ llegit.toNat ∨ kernel.isEmpty .keyboardqueue then
    return kernel.leaveUnlessSwitched
  else
    let kernel ← kernel.deliverKey (charOf llegit)
    return kernel.leaveUnlessSwitched

def clkRoutine (kernel : Kernel σ) : Except Fault (Kernel σ) := do
  let kernel := kernel.mapCore fun core =>
    let core := core.enterSystem
    { core with zeosTicks := Core.wrap (core.zeosTicks + 1) }
  let kernel ← kernel.schedule [.clkRoutine]
  return kernel.leaveUnlessSwitched

/-! ## Resuming a task -/

/-- Store the result of a system call that has one; a call that switched tasks
is finished by its frames. -/
def finishCall (outcome : Kernel σ × Option Int) : Kernel σ :=
  match outcome.2 with
  | some result => outcome.1.mapCore fun core => core.sysret result
  | none => outcome.1

/-- `sys_exit` is never resumed, because its task is on the free list. -/
def resumeFrames : List Frame → Kernel σ → Except Fault (Kernel σ)
  | .schedNextRr :: frames, kernel => resumeFrames frames kernel.schedNextRrTail
  | .retFromFork :: _, kernel => .ok (finishCall (kernel, some 0))
  | .sysSemWait :: _, kernel =>
      .ok (finishCall (kernel.sysSemWaitTail.1, some kernel.sysSemWaitTail.2))
  | .sysReadQueued :: _, kernel => .ok (finishCall (kernel, some 0))
  | .sysReadLoop buffer count i :: _, kernel => do
      let outcome ← readLoop buffer count i kernel
      return finishCall outcome
  | .sysExit :: _, kernel => .ok (finishCall (kernel, some 0))
  | .keyboardRoutine :: _, kernel => .ok (kernel.mapCore Core.leaveKernel)
  | .clkRoutine :: _, kernel => .ok (kernel.mapCore Core.leaveKernel)
  | .cpuIdle :: _, kernel => .ok kernel
  | [], kernel => .ok kernel

def resume (kernel : Kernel σ) : Except Fault (Kernel σ) :=
  let kernel := kernel.mapCore fun core => { core with inKernel := false }
  resumeFrames kernel.currentTask.kernelEsp kernel

end Kernel

/-! ## Events and steps -/

inductive Event
  | resume
  | clock
  | keyboard (llegit : UInt8)
  | getpid
  | gettime
  | fork
  | clone (function stack : Nat)
  | exit
  | sbrk (amount : Int)
  | semInit (nSem : Int) (value : Nat)
  | semWait (nSem : Int)
  | semSignal (nSem : Int)
  | semDestroy (nSem : Int)
  | read (fd : Int) (buffer : Nat) (count i : Int)
  | write (fd : Int) (buffer : Nat) (size : Int)
  | getStats (pid : Int) (st : Nat)
  /-- `sys_ni_syscall`, or a number that the handler refuses. -/
  | niSyscall
  deriving DecidableEq

def IsInt (value : Int) : Prop := -2147483648 ≤ value ∧ value < 2147483648

def IsUnsigned (value : Nat) : Prop := value < 4294967296

namespace Event

def WellTyped : Event → Prop
  | .clone function stack => IsUnsigned function ∧ IsUnsigned stack
  | .sbrk amount => IsInt amount
  | .semInit nSem value => IsInt nSem ∧ IsUnsigned value
  | .semWait nSem => IsInt nSem
  | .semSignal nSem => IsInt nSem
  | .semDestroy nSem => IsInt nSem
  | .read fd buffer count i => IsInt fd ∧ IsUnsigned buffer ∧ IsInt count ∧ IsInt i
  | .write fd buffer size => IsInt fd ∧ IsUnsigned buffer ∧ IsInt size
  | .getStats pid st => IsInt pid ∧ IsUnsigned st
  | _ => True

def IsInterrupt : Event → Bool
  | .clock | .keyboard _ => true
  | _ => false

/-- Interrupts and system calls happen in user mode, and the idle task makes no
system calls. A task that was switched to resumes before anything else. -/
def Enabled (event : Event) (core : Core) : Prop :=
  event.WellTyped ∧
    if event = .resume then core.inKernel = true
    else core.inKernel = false ∧ (event.IsInterrupt = true ∨ core.current ≠ core.idleTask)

end Event

namespace Kernel

variable {σ : Type} [ListOps σ Queue TaskId]

/-- `system_call_handler` around a system call. -/
def systemCall (kernel : Kernel σ)
    (body : Kernel σ → Except Fault (Kernel σ × Option Int)) : Except Fault (Kernel σ) := do
  let outcome ← body (kernel.mapCore Core.enterSystem)
  return finishCall outcome

def returning (body : Kernel σ → Except Fault (Kernel σ × Int)) (kernel : Kernel σ) :
    Except Fault (Kernel σ × Option Int) := do
  let (kernel, result) ← body kernel
  return (kernel, some result)

def execute : Event → Kernel σ → Except Fault (Kernel σ)
  | .resume, kernel => kernel.resume
  | .clock, kernel => kernel.clkRoutine
  | .keyboard llegit, kernel => kernel.keyboardRoutine llegit
  | .getpid, kernel => kernel.systemCall (returning fun k => .ok (k, k.currentTask.pid))
  | .gettime, kernel => kernel.systemCall (returning fun k => .ok (k, toSigned k.core.zeosTicks))
  | .fork, kernel => kernel.systemCall (returning sysFork)
  | .clone function stack, kernel =>
      kernel.systemCall (returning fun k => k.sysClone function stack)
  | .exit, kernel => kernel.systemCall fun k => do
      let k ← k.sysExit
      return (k, none)
  | .sbrk amount, kernel => kernel.systemCall (returning fun k => k.sysSbrk amount)
  | .semInit nSem value, kernel => kernel.systemCall (returning fun k => k.sysSemInit nSem value)
  | .semWait nSem, kernel => kernel.systemCall fun k => k.sysSemWait nSem
  | .semSignal nSem, kernel => kernel.systemCall (returning fun k => k.sysSemSignal nSem)
  | .semDestroy nSem, kernel => kernel.systemCall (returning fun k => k.sysSemDestroy nSem)
  | .read fd buffer count i, kernel =>
      kernel.systemCall fun k => k.sysRead fd buffer count i
  | .write fd buffer size, kernel =>
      kernel.systemCall (returning fun k => do
        let (_, result) ← k.sysWrite fd buffer size
        return (k, result))
  | .getStats pid st, kernel => kernel.systemCall (returning fun k => k.sysGetStats pid st)
  | .niSyscall, kernel => kernel.systemCall (returning fun k => .ok (k, -enosys))

end Kernel

/-- The null pointers the lists consist of before they are initialised. -/
def nullLinks : Links Queue TaskId := ⟨fun _ => ⟨none, none⟩⟩

def zeos (machine : Machine) : TransitionSystem PointerKernel Event where
  init kernel := Kernel.boot machine nullLinks = .ok kernel
  step kernel event next := event.Enabled kernel.core ∧ kernel.execute event = .ok next

def checkedZeos (machine : Machine) : TransitionSystem SequenceKernel Event where
  init kernel := Kernel.boot machine ⟨fun _ => []⟩ = .ok kernel
  step kernel event next := event.Enabled kernel.core ∧ kernel.execute event = .ok next

/-! ## Replaying events -/

instance (value : Int) : Decidable (IsInt value) :=
  inferInstanceAs (Decidable (_ ∧ _))

instance (value : Nat) : Decidable (IsUnsigned value) :=
  inferInstanceAs (Decidable (_ < _))

instance : DecidablePred Event.WellTyped
  | .clone function stack => inferInstanceAs (Decidable (IsUnsigned function ∧ IsUnsigned stack))
  | .sbrk amount => inferInstanceAs (Decidable (IsInt amount))
  | .semInit nSem value => inferInstanceAs (Decidable (IsInt nSem ∧ IsUnsigned value))
  | .semWait nSem => inferInstanceAs (Decidable (IsInt nSem))
  | .semSignal nSem => inferInstanceAs (Decidable (IsInt nSem))
  | .semDestroy nSem => inferInstanceAs (Decidable (IsInt nSem))
  | .read fd buffer count i =>
      inferInstanceAs (Decidable (IsInt fd ∧ IsUnsigned buffer ∧ IsInt count ∧ IsInt i))
  | .write fd buffer size =>
      inferInstanceAs (Decidable (IsInt fd ∧ IsUnsigned buffer ∧ IsInt size))
  | .getStats pid st => inferInstanceAs (Decidable (IsInt pid ∧ IsUnsigned st))
  | .resume | .clock | .keyboard _ | .getpid | .gettime | .fork | .exit | .niSyscall =>
      inferInstanceAs (Decidable True)

instance (event : Event) (core : Core) : Decidable (event.Enabled core) :=
  inferInstanceAs (Decidable (_ ∧ _))

/-- The run that given events make up, when all of them are enabled in turn and
none faults. -/
def replay : List Event → PointerKernel →
    Option (List (Transition PointerKernel Event) × PointerKernel)
  | [], kernel => some ([], kernel)
  | event :: events, kernel =>
      if event.Enabled kernel.core then
        match kernel.execute event with
        | .ok next =>
            (replay events next).map fun rest => (⟨kernel, event, next⟩ :: rest.1, rest.2)
        | .error _ => none
      else none

theorem replay_run {machine : Machine} {events : List Event} {first last : PointerKernel}
    {history : List (Transition PointerKernel Event)}
    (replayed : replay events first = some (history, last)) :
    (zeos machine).Run first history last := by
  induction events generalizing first history with
  | nil =>
      cases replayed
      exact .nil
  | cons event events induction =>
      unfold replay at replayed
      split at replayed
      · rename_i enabled
        split at replayed
        · rename_i next executed
          rcases Option.map_eq_some_iff.mp replayed with ⟨rest, later, equal⟩
          cases equal
          have step : (zeos machine).step first event next := ⟨enabled, executed⟩
          exact (TransitionSystem.Run.single step).append (induction later)
        · cases replayed
      · cases replayed

end Zeos
