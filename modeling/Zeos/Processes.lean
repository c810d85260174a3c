import Zeos.Steps

/-! # Processes

The tasks by themselves, as numbered users of page directories, and the kernel's
steps as steps of these. What happens to memory management in a run can be told
from here without the queues, the stacks and the semaphores.
-/

namespace Zeos

open Foundation Kernel

/-- A task that runs, waits or is ready. The idle task is always at hand. -/
def Kernel.Live (kernel : SequenceKernel) (t : TaskId) : Prop :=
  t = kernel.core.idleTask ∨ t = kernel.core.current ∨ (kernel.core.task t).state ≠ .run

@[ext] structure Processes where
  mm : Mm
  pid : TaskId → Int
  dirPagesBaseAddr : TaskId → DirSlot
  posInDirCounter : TaskId → DirSlot
  quantum : TaskId → Nat
  freequeue : List TaskId
  globalPID : Int
  live : TaskId → Prop

def Kernel.processes (kernel : SequenceKernel) : Processes where
  mm := kernel.core.mm
  pid t := (kernel.core.task t).pid
  dirPagesBaseAddr t := (kernel.core.task t).dirPagesBaseAddr
  posInDirCounter t := (kernel.core.task t).posInDirCounter
  quantum t := (kernel.core.task t).quantum
  freequeue := kernel.queues.elements .freequeue
  globalPID := kernel.core.globalPID
  live := kernel.Live

namespace Processes

def newSlot (view : Processes) (inherited : DirSlot) : DirSlot :=
  view.mm.freeSlot.getD inherited

def forkPages (view : Processes) (father : TaskId) : Except Fault (Mm × Bool) :=
  view.mm.allocateDir.1.forkPages (view.newSlot (view.dirPagesBaseAddr father))
    (view.dirPagesBaseAddr father) (view.posInDirCounter father)

/-- The child of a fork, with number `pid`, and the rest of the freequeue. -/
def addForked (view : Processes) (father child : TaskId) (pid : Int) (rest : List TaskId)
    (mm : Mm) : Processes :=
  { view with
    mm := mm
    pid := Function.update view.pid child pid
    dirPagesBaseAddr := Function.update view.dirPagesBaseAddr child
      (view.newSlot (view.dirPagesBaseAddr father))
    posInDirCounter := Function.update view.posInDirCounter child
      (view.newSlot (view.posInDirCounter father))
    quantum := Function.update view.quantum child (view.quantum father)
    freequeue := rest
    live := fun t => view.live t ∨ t = child }

def addCloned (view : Processes) (caller child : TaskId) (rest : List TaskId) : Processes :=
  { view with
    mm := view.mm.retainDir (view.posInDirCounter caller)
    pid := Function.update view.pid child view.globalPID
    dirPagesBaseAddr := Function.update view.dirPagesBaseAddr child (view.dirPagesBaseAddr caller)
    posInDirCounter := Function.update view.posInDirCounter child (view.posInDirCounter caller)
    quantum := Function.update view.quantum child (view.quantum caller)
    freequeue := rest
    globalPID := view.globalPID + 1
    live := fun t => view.live t ∨ t = child }

/-- `caller` exits, leaving memory as `mm`. -/
def removeExited (view : Processes) (caller : TaskId) (mm : Mm) : Processes :=
  { view with
    mm := mm
    pid := Function.update view.pid caller (-1)
    freequeue := view.freequeue ++ [caller]
    live := fun t => view.live t ∧ t ≠ caller }

structure Keeps (view after : Processes) : Prop where
  mm : after.mm = { view.mm with ram := after.mm.ram }
  pid : after.pid = view.pid
  dirPagesBaseAddr : after.dirPagesBaseAddr = view.dirPagesBaseAddr
  posInDirCounter : after.posInDirCounter = view.posInDirCounter
  quantum : after.quantum = view.quantum
  freequeue : after.freequeue = view.freequeue
  globalPID : after.globalPID = view.globalPID
  live : ∀ t, after.live t ↔ view.live t

theorem Keeps.refl (view : Processes) : view.Keeps view :=
  ⟨rfl, rfl, rfl, rfl, rfl, rfl, rfl, fun _ => .rfl⟩

theorem Keeps.trans {first second third : Processes} (one : first.Keeps second)
    (two : second.Keeps third) : first.Keeps third where
  mm := by rw [two.mm, one.mm]
  pid := two.pid.trans one.pid
  dirPagesBaseAddr := two.dirPagesBaseAddr.trans one.dirPagesBaseAddr
  posInDirCounter := two.posInDirCounter.trans one.posInDirCounter
  quantum := two.quantum.trans one.quantum
  freequeue := two.freequeue.trans one.freequeue
  globalPID := two.globalPID.trans one.globalPID
  live t := (two.live t).trans (one.live t)

end Processes

/-- What a step with task `caller` on the processor does to the processes. A fork
that runs out of frames leaves a child behind that is neither free nor alive. -/
inductive ProcessStep (view : Processes) (caller : TaskId) : Event → Processes → Prop
  | keeps (event : Event) (after : Processes) (keeps : view.Keeps after)
      (full : event = .fork → view.freequeue = []) : ProcessStep view caller event after
  | noMemory (child : TaskId) (rest : List TaskId) (free : view.freequeue = child :: rest)
      (mm : Mm) (outOfFrames : view.forkPages caller = .ok (mm, false)) :
      ProcessStep view caller .fork
        { view.addForked caller child (view.pid caller) rest mm with live := view.live }
  | forked (child : TaskId) (rest : List TaskId) (free : view.freequeue = child :: rest)
      (mm : Mm) (copied : view.forkPages caller = .ok (mm, true)) :
      ProcessStep view caller .fork
        { view.addForked caller child view.globalPID rest mm with
          globalPID := view.globalPID + 1 }
  | cloned (function stack : Nat) (child : TaskId) (rest : List TaskId)
      (free : view.freequeue = child :: rest) :
      ProcessStep view caller (.clone function stack) (view.addCloned caller child rest)
  | exited (mm : Mm) (freed : view.mm.releaseDir (view.dirPagesBaseAddr caller)
        (view.posInDirCounter caller) = .ok mm) :
      ProcessStep view caller .exit (view.removeExited caller mm)
  | moved (amount : Int) (mm : Mm) (result : Option Nat)
      (outcome : view.mm.sbrk (view.dirPagesBaseAddr caller) (view.posInDirCounter caller)
        amount = .ok (mm, result)) :
      ProcessStep view caller (.sbrk amount) { view with mm := mm }

/-! ## The kernel's processes -/

section Effects

variable {kernel after : SequenceKernel}

theorem Disciplined.live_not_free (disciplined : Disciplined kernel) {t : TaskId}
    (live : kernel.Live t) : t ∉ kernel.queues.elements .freequeue := by
  intro free
  rcases live with idle | current | running
  · subst idle
    exact disciplined.idleAllocated free
  · subst current
    exact disciplined.currentUnlinked ⟨_, free⟩
  · exact running (disciplined.placed.within free)

theorem live_congr (idleTask : after.core.idleTask = kernel.core.idleTask)
    (current : after.core.current = kernel.core.current)
    (states : after.states = kernel.states) : after.Live = kernel.Live := by
  funext t
  have state : (after.core.task t).state = (kernel.core.task t).state := congrFun states t
  rw [Live, Live, idleTask, current, state]

@[simp] theorem leaveKernel_processes (kernel : SequenceKernel) :
    (kernel.mapCore Core.leaveKernel).processes = kernel.processes := by
  have live : (kernel.mapCore Core.leaveKernel).Live = kernel.Live :=
    live_congr rfl rfl (by funext t; simp [states, mapCore])
  simp only [processes, live]
  simp [mapCore]

@[simp] theorem finishCall_processes (outcome : SequenceKernel × Option Int) :
    (finishCall outcome).processes = outcome.1.processes := by
  rcases outcome with ⟨kernel, result⟩
  cases result with
  | none => rfl
  | some result =>
      have live : (finishCall (kernel, some result)).Live = kernel.Live :=
        live_congr rfl rfl (by funext t; simp [states, finishCall, mapCore])
      simp only [processes, live]
      simp [finishCall, mapCore]

@[simp] theorem leaveUnlessSwitched_processes (kernel : SequenceKernel) :
    kernel.leaveUnlessSwitched.processes = kernel.processes := by
  unfold leaveUnlessSwitched
  split
  · rfl
  · exact leaveKernel_processes kernel

theorem sameButStats_processes {core : Core} (same : SameButStats core kernel.core) :
    Kernel.processes ⟨core, kernel.queues⟩ = kernel.processes := by
  have live : Kernel.Live ⟨core, kernel.queues⟩ = kernel.Live :=
    live_congr same.idleTask same.current (by funext t; simp only [states]; rw [same.task])
  simp only [processes, live, same.mm, same.globalPID]
  congr 1 <;> funext t <;> rw [same.task]

theorem entry_processes {core : Core} {event : Event} (entry : Entry event kernel.core core) :
    Kernel.processes ⟨core, kernel.queues⟩ = kernel.processes := by
  have live : Kernel.Live ⟨core, kernel.queues⟩ = kernel.Live :=
    live_congr entry.idleTask entry.current (by funext t; simp only [states]; rw [entry.task])
  simp only [processes, live, entry.mm, entry.globalPID]
  congr 1 <;> funext t <;> rw [entry.task]

theorem keeps_congr (mm : after.core.mm = { kernel.core.mm with ram := after.core.mm.ram })
    (tasks : ∀ t, (after.core.task t).pid = (kernel.core.task t).pid ∧
      (after.core.task t).dirPagesBaseAddr = (kernel.core.task t).dirPagesBaseAddr ∧
      (after.core.task t).posInDirCounter = (kernel.core.task t).posInDirCounter ∧
      (after.core.task t).quantum = (kernel.core.task t).quantum)
    (freequeue : after.queues.elements .freequeue = kernel.queues.elements .freequeue)
    (globalPID : after.core.globalPID = kernel.core.globalPID)
    (live : ∀ t, after.Live t ↔ kernel.Live t) : kernel.processes.Keeps after.processes where
  mm := mm
  pid := funext fun t => (tasks t).1
  dirPagesBaseAddr := funext fun t => (tasks t).2.1
  posInDirCounter := funext fun t => (tasks t).2.2.1
  quantum := funext fun t => (tasks t).2.2.2
  freequeue := freequeue
  globalPID := globalPID
  live := live

theorem dispatch_live (placed : Placed kernel.states kernel.queues) {frames : List Frame}
    {t : TaskId} : (kernel.dispatch frames).Live t ↔
      t = kernel.core.idleTask ∨ (kernel.core.task t).state ≠ .run := by
  unfold Live dispatch
  cases contents : kernel.queues.elements .readyqueue with
  | nil => simp
  | cons next rest =>
      have ready : (kernel.core.task next).state = .ready :=
        placed.within (show next ∈ kernel.queues.elements .readyqueue by simp [contents])
      by_cases same : t = next
      · simp [same, ready]
      · simp [same]

theorem dispatch_idle_keeps (disciplined : Disciplined kernel) (frames : List Frame)
    (idle : kernel.core.current = kernel.core.idleTask) :
    kernel.processes.Keeps (kernel.dispatch frames).processes := by
  refine keeps_congr (by simp) (by simp)
    (dispatch_elements disciplined.placed frames Queue.noConfusion) (by simp) fun t => ?_
  rw [dispatch_live disciplined.placed, Live, idle]
  tauto

theorem park_keeps {queues : Sequences Queue TaskId} {state : ProcessState} (frames : List Frame)
    (placed : Placed (Kernel.states ⟨kernel.core.setState kernel.core.current state, queues⟩)
      queues)
    (freequeue : queues.elements .freequeue = kernel.queues.elements .freequeue)
    (stopped : state ≠ .run) :
    kernel.processes.Keeps (Kernel.processes (dispatch
      ⟨kernel.core.setState kernel.core.current state, queues⟩ frames)) := by
  refine keeps_congr (by simp) (by simp) ?_ (by simp) fun t => ?_
  · rw [dispatch_elements placed frames Queue.noConfusion]
    exact freequeue
  · rw [dispatch_live placed, Live]
    by_cases same : t = kernel.core.current
    · simp [same, stopped]
    · simp [same]

theorem stateWithin_ne_run {queue : Queue} (different : .freequeue ≠ queue) :
    stateWithin queue ≠ .run := by
  cases queue with
  | freequeue => exact absurd rfl different
  | readyqueue => exact ProcessState.noConfusion
  | keyboardqueue => exact ProcessState.noConfusion
  | blocked sem => exact ProcessState.noConfusion

theorem parkTail_keeps (disciplined : Disciplined kernel) {queue : Queue} (frames : List Frame)
    (different : .freequeue ≠ queue) :
    kernel.processes.Keeps (kernel.parkTail queue frames).processes := by
  refine park_keeps frames (disciplined.placed.toTail queue
    (fun t other => by simp [states, other]) (by simp [states])) ?_ (stateWithin_ne_run different)
  rw [Sequences.toTail_unlinked disciplined.currentUnlinked, if_neg different]

theorem parkFront_keeps (disciplined : Disciplined kernel) {queue : Queue} (frames : List Frame)
    (different : .freequeue ≠ queue) :
    kernel.processes.Keeps (kernel.parkFront queue frames).processes := by
  refine park_keeps frames (disciplined.placed.toFront queue
    (fun t other => by simp [states, other]) (by simp [states])) ?_ (stateWithin_ne_run different)
  rw [Sequences.toFront_unlinked disciplined.currentUnlinked, if_neg different]

theorem withInput_keeps (ram : Nat → Nat → UInt8) (circbuff : Circbuff)
    (readers : TaskId → Int) : kernel.processes.Keeps
      (Kernel.processes ⟨kernel.core.withInput ram circbuff readers, kernel.queues⟩) :=
  ⟨rfl, rfl, rfl, rfl, rfl, rfl, rfl, fun _ => .rfl⟩

theorem ReadOutcome.keeps (disciplined : Disciplined kernel)
    {outcome : SequenceKernel × Option Int} (read : ReadOutcome kernel outcome) :
    kernel.processes.Keeps outcome.1.processes := by
  cases read with
  | finished ram circbuff readers result => exact withInput_keeps ram circbuff readers
  | waits ram circbuff readers buffer count i =>
      exact (withInput_keeps ram circbuff readers).trans
        (parkFront_keeps (disciplined.withInput ram circbuff readers) _ Queue.noConfusion)
  | queued ram circbuff readers =>
      exact (withInput_keeps ram circbuff readers).trans
        (parkTail_keeps (disciplined.withInput ram circbuff readers) _ Queue.noConfusion)

theorem wake_keeps (placed : Placed kernel.states kernel.queues) {t : TaskId} {queue : Queue}
    (waiting : t ∈ kernel.queues.elements queue) (blocked : stateWithin queue = .blocked)
    {queues : Sequences Queue TaskId}
    (freequeue : queues.elements .freequeue = kernel.queues.elements .freequeue) :
    kernel.processes.Keeps (Kernel.processes ⟨kernel.core.setState t .ready, queues⟩) := by
  have state : (kernel.core.task t).state = stateWithin queue := placed.within waiting
  refine keeps_congr (by simp) (by simp) freequeue (by simp) fun other => ?_
  by_cases same : other = t
  · simp [Live, same, state, blocked]
  · simp [Live, same]

theorem KeyOutcome.keeps (disciplined : Disciplined kernel) {result : UInt8}
    (key : KeyOutcome kernel result after) : kernel.processes.Keeps after.processes := by
  cases key with
  | buffered reader rest waiting incomplete => exact withInput_keeps _ _ _
  | wakes reader rest waiting complete =>
      have member : reader ∈ kernel.queues.elements .keyboardqueue := by simp [waiting]
      have input := disciplined.withInput kernel.core.mm.ram
        (kernel.core.circbuff.push result) (Function.update kernel.core.keyboardReadersCount reader
          (kernel.core.keyboardReadersCount reader - (kernel.core.circbuff.push result).counter))
      have freequeue : (kernel.queues.toFront reader .readyqueue).elements .freequeue =
          kernel.queues.elements .freequeue :=
        Sequences.toFront_elements_of_ne Queue.noConfusion
          (disciplined.placed.not_elsewhere member Queue.noConfusion)
      have woken := wake_keeps input.placed member rfl freequeue
      exact ((withInput_keeps _ _ _).trans woken).trans
        (parkTail_keeps (reader_disciplined disciplined member _ _) _ Queue.noConfusion)

theorem ClockOutcome.keeps (disciplined : Disciplined kernel)
    (clock : ClockOutcome kernel after) : kernel.processes.Keeps after.processes := by
  cases clock with
  | continues left => exact .refl _
  | idles expired idle => exact dispatch_idle_keeps disciplined _ idle
  | preempts expired notIdle => exact parkTail_keeps disciplined _ Queue.noConfusion

theorem setSemdestroyed_processes (kernel : SequenceKernel) (t : TaskId) (value : Bool) :
    Kernel.processes ⟨kernel.core.setSemdestroyed t value, kernel.queues⟩ = kernel.processes := by
  have live : Kernel.Live ⟨kernel.core.setSemdestroyed t value, kernel.queues⟩ = kernel.Live :=
    live_congr rfl rfl (by funext other; simp [states])
  simp only [processes, live]
  simp

theorem ResumeOutcome.keeps (disciplined : Disciplined kernel)
    (resumed : ResumeOutcome kernel after) : kernel.processes.Keeps after.processes := by
  cases resumed with
  | idles top => exact .refl _
  | interrupt frame top kind =>
      rw [leaveKernel_processes]
      exact .refl _
  | returns frame top kind =>
      rw [finishCall_processes]
      exact .refl _
  | waited top =>
      rw [finishCall_processes, setSemdestroyed_processes]
      exact .refl _
  | reads buffer count i top outcome loop =>
      rw [finishCall_processes]
      exact loop.coarse.keeps disciplined

theorem WaitOutcome.keeps (disciplined : Disciplined kernel) {nSem : Int}
    {outcome : SequenceKernel × Option Int} (waited : WaitOutcome kernel nSem outcome) :
    kernel.processes.Keeps outcome.1.processes := by
  cases waited with
  | refused unusable => exact .refl _
  | passes sem index owned positive =>
      exact keeps_congr (by simp) (by simp) rfl (by simp) fun t => by simp [Live]
  | blocks sem index owned exhausted => exact parkTail_keeps disciplined _ Queue.noConfusion

theorem InitOutcome.keeps {nSem : Int} {value : Nat} {outcome : SequenceKernel × Int}
    (initialised : InitOutcome kernel nSem value outcome) :
    kernel.processes.Keeps outcome.1.processes := by
  cases initialised with
  | refused index => exact .refl _
  | busy sem index owned => exact .refl _
  | initialised sem index unowned =>
      exact keeps_congr (by simp) (by simp) rfl (by simp) fun t => by simp [Live]

theorem SignalOutcome.keeps (disciplined : Disciplined kernel) {nSem : Int}
    {outcome : SequenceKernel × Int} (signalled : SignalOutcome kernel nSem outcome) :
    kernel.processes.Keeps outcome.1.processes := by
  cases signalled with
  | refused unusable => exact .refl _
  | counts sem index owned empty =>
      exact keeps_congr (by simp) (by simp) rfl (by simp) fun t => by simp [Live]
  | wakes sem index owned first rest waiting =>
      have member : first ∈ kernel.queues.elements (.blocked sem) := by simp [waiting]
      exact wake_keeps disciplined.placed member rfl (Sequences.toTail_elements_of_ne
        Queue.noConfusion (disciplined.placed.not_elsewhere member Queue.noConfusion))

theorem Woken.keeps {which : SemId → Prop} (placed : Placed kernel.states kernel.queues)
    (woken : Woken which kernel after) : kernel.processes.Keeps after.processes := by
  have rest := woken.rest
  have tasks : ∀ t, (∃ sem, which sem ∧ t ∈ kernel.queues.elements (.blocked sem)) ∨
      after.core.task t = kernel.core.task t := by
    intro t
    by_cases waiting : ∃ sem, which sem ∧ t ∈ kernel.queues.elements (.blocked sem)
    · exact .inl waiting
    · exact .inr (woken.others fun sem chosen member => waiting ⟨sem, chosen, member⟩)
  refine keeps_congr (by rw [rest]) (fun t => ?_) woken.freequeue (by rw [rest]) fun t => ?_
  · rcases tasks t with ⟨sem, chosen, member⟩ | same
    · simp [woken.woken chosen member]
    · simp [same]
  · have idleTask : after.core.idleTask = kernel.core.idleTask := by rw [rest]
    have current : after.core.current = kernel.core.current := by rw [rest]
    rcases tasks t with ⟨sem, chosen, member⟩ | same
    · have state : (kernel.core.task t).state = .blocked := placed.within member
      simp [Live, woken.woken chosen member, state]
    · rw [Live, Live, same, idleTask, current]

theorem DestroyOutcome.keeps (disciplined : Disciplined kernel) {nSem : Int}
    {outcome : SequenceKernel × Int} (destroyed : DestroyOutcome kernel nSem outcome) :
    kernel.processes.Keeps outcome.1.processes := by
  cases destroyed with
  | refused unusable => exact .refl _
  | notOwner sem index owned other => exact .refl _
  | destroyed sem index owned owner after woken orderly semArray =>
      exact woken.keeps disciplined.placed

theorem StatsOutcome.keeps {pid : Int} {st : Nat} {outcome : SequenceKernel × Int}
    (told : StatsOutcome kernel pid st outcome) :
    kernel.processes.Keeps outcome.1.processes := by
  cases told with
  | refused error positive => exact .refl _
  | stored t found notNegative accepted mm stored =>
      have same := sameButStats_processes (.setRemaining kernel.core t)
      rw [← same]
      exact ⟨storeBytes_eq_ok stored, rfl, rfl, rfl, rfl, rfl, rfl, fun _ => .rfl⟩

/-! ## Steps of the kernel as steps of its processes -/

theorem forkPages_processes (kernel : SequenceKernel) :
    kernel.processes.forkPages kernel.core.current = kernel.core.forkPages := rfl

theorem forkTo_processes (kernel : SequenceKernel) (child : TaskId) (mm : Mm) :
    (fun t => ((kernel.core.forkTo child mm).task t).pid) =
        Function.update kernel.processes.pid child kernel.currentTask.pid ∧
      (fun t => ((kernel.core.forkTo child mm).task t).dirPagesBaseAddr) =
        Function.update kernel.processes.dirPagesBaseAddr child
          (kernel.processes.newSlot kernel.currentTask.dirPagesBaseAddr) ∧
      (fun t => ((kernel.core.forkTo child mm).task t).posInDirCounter) =
        Function.update kernel.processes.posInDirCounter child
          (kernel.processes.newSlot kernel.currentTask.posInDirCounter) ∧
      (fun t => ((kernel.core.forkTo child mm).task t).quantum) =
        Function.update kernel.processes.quantum child kernel.currentTask.quantum := by
  refine ⟨?_, ?_, ?_, ?_⟩ <;> funext t <;> by_cases same : t = child <;>
    simp [same, processes, Processes.newSlot, currentTask]

theorem ForkOutcome.processStep (disciplined : Disciplined kernel)
    {outcome : SequenceKernel × Int} (forked : ForkOutcome kernel outcome) :
    ProcessStep kernel.processes kernel.core.current .fork outcome.1.processes := by
  cases forked with
  | full empty => exact .keeps _ _ (.refl _) fun _ => empty
  | noMemory child rest free mm outOfFrames =>
      have member : child ∈ kernel.queues.elements .freequeue := by simp [free]
      have notIdle := child_ne_idle disciplined member
      have notCurrent := child_ne_current disciplined member
      rcases forkTo_processes kernel child mm with ⟨pid, directories, positions, quanta⟩
      have same : (kernel.forkFailed child mm).processes =
          { kernel.processes.addForked kernel.core.current child
              (kernel.processes.pid kernel.core.current) rest mm with
            live := kernel.processes.live } := by
        apply Processes.ext
        · simp [processes, forkFailed, Processes.addForked]
        · exact pid
        · exact directories
        · exact positions
        · exact quanta
        · simp [processes, forkFailed, Processes.addForked, free]
        · simp [processes, forkFailed, Processes.addForked]
        · funext t
          by_cases isChild : t = child
          · have running : (kernel.core.task child).state = .run :=
              disciplined.placed.within member
            simp [processes, forkFailed, Live, isChild, notIdle, notCurrent, running,
              disciplined.running]
          · simp [processes, forkFailed, Live, isChild]
      rw [← forkPages_processes] at outOfFrames
      rw [same]
      exact .noMemory child rest free mm outOfFrames
  | forked child rest free mm copied =>
      rcases forkTo_processes kernel child mm with ⟨-, directories, positions, quanta⟩
      have same : (kernel.forked child mm).processes =
          { kernel.processes.addForked kernel.core.current child kernel.core.globalPID rest mm with
            globalPID := kernel.core.globalPID + 1 } := by
        apply Processes.ext
        · simp [processes, Kernel.forked, Processes.addForked]
        · funext t
          by_cases isChild : t = child <;>
            simp [processes, Kernel.forked, Processes.addForked, isChild]
        · simpa [processes, Kernel.forked, Processes.addForked, currentTask] using directories
        · simpa [processes, Kernel.forked, Processes.addForked, currentTask] using positions
        · simpa [processes, Kernel.forked, Processes.addForked, currentTask] using quanta
        · simp [processes, Kernel.forked, Processes.addForked, free, Sequences.toTail]
        · simp [processes, Kernel.forked]
        · funext t
          by_cases isChild : t = child <;>
            simp [processes, Kernel.forked, Processes.addForked, Live, isChild]
      rw [← forkPages_processes] at copied
      rw [same]
      exact .forked child rest free mm copied

theorem CloneOutcome.processStep {function stack : Nat} {outcome : SequenceKernel × Int}
    (cloned : CloneOutcome kernel function stack outcome) :
    ProcessStep kernel.processes kernel.core.current (.clone function stack)
      outcome.1.processes := by
  cases cloned with
  | refused error negative => exact .keeps _ _ (.refl _) Event.noConfusion
  | cloned child rest free =>
      have same : (kernel.cloned child function stack).processes =
          kernel.processes.addCloned kernel.core.current child rest := by
        apply Processes.ext
        · by_cases isChild : kernel.core.current = child <;>
            simp [processes, Kernel.cloned, Processes.addCloned, Core.cloneTo, isChild]
        · funext t
          by_cases isChild : t = child <;>
            simp [processes, Kernel.cloned, Processes.addCloned, Core.cloneTo, isChild]
        · funext t
          by_cases isChild : t = child <;>
            simp [processes, Kernel.cloned, Processes.addCloned, Core.cloneTo, isChild]
        · funext t
          by_cases isChild : t = child <;>
            simp [processes, Kernel.cloned, Processes.addCloned, Core.cloneTo, isChild]
        · funext t
          by_cases isChild : t = child <;>
            simp [processes, Kernel.cloned, Processes.addCloned, Core.cloneTo, isChild]
        · simp [processes, Kernel.cloned, Processes.addCloned, free, Sequences.toTail]
        · simp [processes, Kernel.cloned, Processes.addCloned, Core.cloneTo]
        · funext t
          by_cases isChild : t = child <;>
            simp [processes, Kernel.cloned, Processes.addCloned, Core.cloneTo, Live, isChild]
      rw [same]
      exact .cloned function stack child rest free

theorem ExitOutcome.removes (disciplined : Disciplined kernel)
    (notIdle : kernel.core.current ≠ kernel.core.idleTask) (exited : ExitOutcome kernel after) :
    ∃ mm, kernel.core.mm.releaseDir kernel.currentTask.dirPagesBaseAddr
        kernel.currentTask.posInDirCounter = .ok mm ∧
      after.processes = kernel.processes.removeExited kernel.core.current mm := by
  cases exited with
  | exited released destroyed mm freed =>
      have keeps := destroyed.woken.keeps disciplined.placed
      have rest := destroyed.woken.rest
      have current := destroyed.woken.current_eq
      have idleTask : released.core.idleTask = kernel.core.idleTask := by rw [rest]
      have unlinked := destroyed.woken.current_unlinked disciplined
      have running : (released.core.task released.core.current).state = .run :=
        destroyed.orderly.placed.outside unlinked
      exists mm, freed
      apply Processes.ext
      · simp [processes, Processes.removeExited]
      · funext t
        have pid := congrFun keeps.pid t
        by_cases isCaller : t = kernel.core.current
        · simp [processes, retire, Kernel.freed, Processes.removeExited, isCaller, current]
        · simpa [processes, retire, Kernel.freed, Processes.removeExited, isCaller, current]
            using pid
      · funext t
        have directory := congrFun keeps.dirPagesBaseAddr t
        by_cases isCaller : t = kernel.core.current <;>
          simpa [processes, retire, Kernel.freed, Processes.removeExited, isCaller, current]
            using directory
      · funext t
        have position := congrFun keeps.posInDirCounter t
        by_cases isCaller : t = kernel.core.current <;>
          simpa [processes, retire, Kernel.freed, Processes.removeExited, isCaller, current]
            using position
      · funext t
        have quantum := congrFun keeps.quantum t
        by_cases isCaller : t = kernel.core.current <;>
          simpa [processes, retire, Kernel.freed, Processes.removeExited, isCaller, current]
            using quantum
      · show (released.retire mm).queues.elements .freequeue = _
        rw [retire_elements destroyed.orderly unlinked mm Queue.noConfusion, if_pos rfl, current,
          destroyed.woken.freequeue]
        rfl
      · have globalPID : released.core.globalPID = kernel.core.globalPID := by rw [rest]
        simpa [processes, Processes.removeExited] using globalPID
      · funext t
        have live := keeps.live t
        show (released.retire mm).Live t = (kernel.Live t ∧ t ≠ kernel.core.current)
        rw [retire, dispatch_live (freed_placed destroyed.orderly unlinked mm)]
        by_cases isCaller : t = kernel.core.current
        · rw [current] at running
          simp [Kernel.freed, isCaller, running, current, idleTask, notIdle]
        · simpa [processes, Live, Kernel.freed, isCaller, current, idleTask] using live

theorem ExitOutcome.processStep (disciplined : Disciplined kernel)
    (notIdle : kernel.core.current ≠ kernel.core.idleTask) (exited : ExitOutcome kernel after) :
    ProcessStep kernel.processes kernel.core.current .exit after.processes := by
  rcases exited.removes disciplined notIdle with ⟨mm, freed, same⟩
  rw [same]
  exact .exited mm freed

theorem SbrkOutcome.processStep {amount : Int} {outcome : SequenceKernel × Int}
    (moved : SbrkOutcome kernel amount outcome) :
    ProcessStep kernel.processes kernel.core.current (.sbrk amount) outcome.1.processes := by
  cases moved with
  | refused mm outcome => exact .moved amount mm none outcome
  | moved mm last outcome => exact .moved amount mm (some last) outcome

theorem Effect.processStep (disciplined : Disciplined kernel) {event : Event}
    (effect : Effect kernel event after)
    (notIdle : event ≠ .resume → event.IsInterrupt = false →
      kernel.core.current ≠ kernel.core.idleTask) :
    ProcessStep kernel.processes kernel.core.current event after.processes := by
  cases effect with
  | resume outcome => exact .keeps _ _ (outcome.keeps disciplined) Event.noConfusion
  | clock outcome =>
      rw [leaveUnlessSwitched_processes]
      exact .keeps _ _ (outcome.keeps disciplined) Event.noConfusion
  | ignored llegit refused =>
      rw [leaveKernel_processes]
      exact .keeps _ _ (.refl _) Event.noConfusion
  | keyboard llegit accepted outcome =>
      rw [leaveUnlessSwitched_processes]
      exact .keeps _ _ (outcome.keeps disciplined) Event.noConfusion
  | getpid result =>
      rw [finishCall_processes]
      exact .keeps _ _ (.refl _) Event.noConfusion
  | gettime result =>
      rw [finishCall_processes]
      exact .keeps _ _ (.refl _) Event.noConfusion
  | fork outcome =>
      rw [finishCall_processes]
      exact outcome.processStep disciplined
  | clone function stack outcome =>
      rw [finishCall_processes]
      exact outcome.processStep
  | exit outcome => exact outcome.processStep disciplined (notIdle Event.noConfusion rfl)
  | sbrk amount outcome =>
      rw [finishCall_processes]
      exact outcome.processStep
  | semInit nSem value outcome =>
      rw [finishCall_processes]
      exact .keeps _ _ outcome.keeps Event.noConfusion
  | semWait nSem outcome =>
      rw [finishCall_processes]
      exact .keeps _ _ (outcome.keeps disciplined) Event.noConfusion
  | semSignal nSem outcome =>
      rw [finishCall_processes]
      exact .keeps _ _ (outcome.keeps disciplined) Event.noConfusion
  | semDestroy nSem outcome =>
      rw [finishCall_processes]
      exact .keeps _ _ (outcome.keeps disciplined) Event.noConfusion
  | read fd buffer count i call =>
      rw [finishCall_processes]
      exact .keeps _ _ (call.coarse.keeps disciplined) Event.noConfusion
  | write fd buffer size result =>
      rw [finishCall_processes]
      exact .keeps _ _ (.refl _) Event.noConfusion
  | getStats pid st told =>
      rw [finishCall_processes]
      exact .keeps _ _ told.keeps Event.noConfusion
  | niSyscall =>
      rw [finishCall_processes]
      exact .keeps _ _ (.refl _) Event.noConfusion

end Effects

structure Processes.Sound (view : Processes) (caller : TaskId) : Prop where
  callerLive : view.live caller
  liveNotFree : ∀ {t}, view.live t → t ∉ view.freequeue
  freeNodup : view.freequeue.Nodup

section Sound

variable {view after : Processes} {caller child t : TaskId} {rest : List TaskId} {event : Event}

theorem Processes.Sound.live_ne_child (sound : view.Sound caller)
    (free : view.freequeue = child :: rest) (live : view.live t) : t ≠ child := by
  intro same
  apply sound.liveNotFree live
  rw [free, same]
  exact List.mem_cons_self

theorem Processes.Sound.update_live (sound : view.Sound caller)
    (free : view.freequeue = child :: rest) (live : view.live t) {Value : Type}
    (field : TaskId → Value) (value : Value) : Function.update field child value t = field t :=
  Function.update_of_ne (sound.live_ne_child free live) _ _

theorem ProcessStep.slots_of_live (sound : view.Sound caller)
    (step : ProcessStep view caller event after) (live : view.live t) :
    after.posInDirCounter t = view.posInDirCounter t ∧
      after.dirPagesBaseAddr t = view.dirPagesBaseAddr t := by
  cases step with
  | keeps event after keeps full =>
      exact ⟨congrFun keeps.posInDirCounter t, congrFun keeps.dirPagesBaseAddr t⟩
  | noMemory child rest free mm outOfFrames =>
      exact ⟨sound.update_live free live _ _, sound.update_live free live _ _⟩
  | forked child rest free mm copied =>
      exact ⟨sound.update_live free live _ _, sound.update_live free live _ _⟩
  | cloned function stack child rest free =>
      exact ⟨sound.update_live free live _ _, sound.update_live free live _ _⟩
  | exited mm freed => exact ⟨rfl, rfl⟩
  | moved amount mm result outcome => exact ⟨rfl, rfl⟩

end Sound

theorem Disciplined.sound {kernel : SequenceKernel} (disciplined : Disciplined kernel) :
    kernel.processes.Sound kernel.core.current :=
  ⟨.inr (.inl rfl), disciplined.live_not_free, disciplined.placed.nodup _⟩

theorem step_processes {machine : Machine} {before after : SequenceKernel} {event : Event}
    (disciplined : Disciplined before) (step : (checkedZeos machine).step before event after) :
    ProcessStep before.processes before.core.current event after.processes := by
  rcases step_effect disciplined step with ⟨core, entry, entered, notIdle, effect⟩
  have moved := effect.processStep entered notIdle
  rw [entry_processes entry] at moved
  exact (show core.current = before.core.current from entry.current) ▸ moved

/-! ## Runs -/

section Runs

variable {machine : Machine} {history : List (Transition SequenceKernel Event)}
  {first last : SequenceKernel}

theorem init_eq (start : (checkedZeos machine).init first) :
    first = ⟨machine.bootCore 0 1, bootSequences⟩ :=
  (Except.ok.inj (start.symm.trans (boot_sequences machine)))

theorem disciplined_of_run (run : (checkedZeos machine).Run first history last)
    (disciplined : Disciplined first) : Disciplined last :=
  run.invariant disciplined fun _ _ step disciplined =>
    execute_disciplined disciplined step.1 step.2

theorem processes_invariant {Invariant : Processes → Prop}
    (reaches : (checkedZeos machine).Reaches history last)
    (initially : Invariant (Kernel.processes ⟨machine.bootCore 0 1, bootSequences⟩))
    (preserved : ∀ transition ∈ history,
      transition.before.processes.Sound transition.before.core.current →
      ProcessStep transition.before.processes transition.before.core.current transition.label
        transition.after.processes →
      Invariant transition.before.processes → Invariant transition.after.processes) :
    Invariant last.processes := by
  rcases reaches with ⟨first, start, run⟩
  rw [init_eq start] at run
  let Both (kernel : SequenceKernel) : Prop := Disciplined kernel ∧ Invariant kernel.processes
  have both : Both last := by
    refine run.invariant ⟨boot_disciplined machine, initially⟩ fun transition member step holds =>
      ?_
    exact ⟨execute_disciplined holds.1 step.1 step.2,
      preserved transition member holds.1.sound (step_processes holds.1 step) holds.2⟩
  exact both.2

end Runs

/-! ## Process numbers -/

structure Processes.Numbered (view : Processes) : Prop where
  free : ∀ t, t ∈ view.freequeue → view.pid t = -1
  taken : ∀ t, t ∉ view.freequeue → 0 ≤ view.pid t
  next : 2 ≤ view.globalPID

theorem Processes.Numbered.add {view after : Processes} (numbered : view.Numbered)
    {child : TaskId} {rest : List TaskId} (free : view.freequeue = child :: rest) {pid : Int}
    (notNegative : 0 ≤ pid) (nodup : view.freequeue.Nodup) (freequeue : after.freequeue = rest)
    (pids : after.pid = Function.update view.pid child pid) (next : 2 ≤ after.globalPID) :
    after.Numbered := by
  rw [free, List.nodup_cons] at nodup
  refine ⟨fun t member => ?_, fun t absent => ?_, next⟩
  · rw [freequeue] at member
    have different : t ≠ child := fun same => nodup.1 (same ▸ member)
    rw [pids, Function.update_of_ne different]
    exact numbered.free t (by simp [free, member])
  · rw [freequeue] at absent
    rw [pids]
    by_cases isChild : t = child
    · simpa [isChild] using notNegative
    · rw [Function.update_of_ne isChild]
      exact numbered.taken t (by simp [free, isChild, absent])

theorem ProcessStep.numbered {view after : Processes} {caller : TaskId} {event : Event}
    (sound : view.Sound caller) (step : ProcessStep view caller event after)
    (numbered : view.Numbered) : after.Numbered := by
  have next := numbered.next
  have callerTaken := sound.liveNotFree sound.callerLive
  cases step with
  | keeps event after keeps full =>
      refine ⟨?_, ?_, ?_⟩ <;> simp only [keeps.freequeue, keeps.pid, keeps.globalPID]
      · exact numbered.free
      · exact numbered.taken
      · exact next
  | noMemory child rest free mm outOfFrames =>
      exact numbered.add free (numbered.taken caller callerTaken) sound.freeNodup rfl rfl next
  | forked child rest free mm copied =>
      exact numbered.add free (by omega) sound.freeNodup rfl rfl
        (show 2 ≤ view.globalPID + 1 by omega)
  | cloned function stack child rest free =>
      exact numbered.add free (by omega) sound.freeNodup rfl rfl
        (show 2 ≤ view.globalPID + 1 by omega)
  | exited mm freed =>
      refine ⟨fun t member => ?_, fun t absent => ?_, next⟩
      · by_cases isCaller : t = caller
        · simp [Processes.removeExited, isCaller]
        · have old : t ∈ view.freequeue := by
            simpa [Processes.removeExited, isCaller] using member
          simpa [Processes.removeExited, isCaller] using numbered.free t old
      · have both : t ∉ view.freequeue ∧ t ≠ caller := by
          simpa [Processes.removeExited] using absent
        simpa [Processes.removeExited, both.2] using numbered.taken t both.1
  | moved amount mm result outcome => exact ⟨numbered.free, numbered.taken, next⟩

theorem boot_allocated {t : TaskId} (absent : t ∉ bootSequences.elements .freequeue) :
    t = 0 ∨ t = 1 := by
  revert t
  decide

theorem boot_live {machine : Machine} {t : TaskId}
    (live : Kernel.Live ⟨machine.bootCore 0 1, bootSequences⟩ t) : t = 0 ∨ t = 1 :=
  boot_allocated ((boot_disciplined machine).live_not_free live)

theorem boot_numbered (machine : Machine) :
    (Kernel.processes ⟨machine.bootCore 0 1, bootSequences⟩).Numbered where
  free t member := by
    have later : t ≠ 0 ∧ t ≠ 1 := by
      revert t
      show ∀ t, t ∈ bootSequences.elements .freequeue → t ≠ 0 ∧ t ≠ 1
      decide
    show ((machine.bootCore 0 1).task t).pid = -1
    rw [bootCore_pid, if_neg later.1, if_neg later.2]
  taken t absent := by
    change 0 ≤ ((machine.bootCore 0 1).task t).pid
    rw [bootCore_pid]
    rcases boot_allocated absent with same | same <;> subst same <;> decide
  next := le_refl _

theorem reachable_numbered {machine : Machine} {history : List (Transition SequenceKernel Event)}
    {last : SequenceKernel} (reaches : (checkedZeos machine).Reaches history last) :
    last.processes.Numbered :=
  processes_invariant reaches (boot_numbered machine) fun _ _ sound step numbered =>
    step.numbered sound numbered

end Zeos
