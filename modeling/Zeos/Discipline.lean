import Zeos.Placement

/-! # Queue discipline

The invariant of the kernel over checked sequences, and what its routines do
from a state in which the invariant holds: no list is misused, so each routine
has a result that can be written down.
-/

namespace Zeos

open Foundation

namespace Kernel

def states (kernel : SequenceKernel) (t : TaskId) : ProcessState := (kernel.core.task t).state

/-! ## List routines on proper sequences -/

section Routines

variable {kernel : SequenceKernel} {t : TaskId} {queue : Queue}

@[simp] theorem isEmpty_iff : kernel.isEmpty queue = true ↔ kernel.queues.elements queue = [] :=
  List.isEmpty_iff

theorem first_eq {rest : List TaskId} (contents : kernel.queues.elements queue = t :: rest) :
    kernel.first queue = .ok t := by
  simp [first, ListOps.first, contents]

theorem add_eq (unlinked : ¬kernel.queues.Linked t) :
    kernel.add t queue = .ok ⟨kernel.core, kernel.queues.toFront t queue⟩ := by
  simp [add, liftList, ListOps.add, unlinked, Sequences.toFront,
    Sequences.remove_unlinked unlinked]

theorem addTail_eq (unlinked : ¬kernel.queues.Linked t) :
    kernel.addTail t queue = .ok ⟨kernel.core, kernel.queues.toTail t queue⟩ := by
  simp [addTail, liftList, ListOps.addTail, unlinked, Sequences.toTail,
    Sequences.remove_unlinked unlinked]

theorem del_eq (linked : kernel.queues.Linked t) :
    kernel.del t = .ok ⟨kernel.core, kernel.queues.remove t⟩ := by
  simp [del, liftList, ListOps.del, linked]

theorem initHead_nil (empty : kernel.queues.elements queue = []) :
    kernel.initHead queue = .ok kernel := by
  simp [initHead, liftList, ListOps.initHead, empty]

end Routines

end Kernel

open Kernel

/-- The routines that an interrupted task resumes. The idle task is waiting for
no other. -/
def Frame.OfInterrupt : Frame → Prop
  | .schedNextRr | .cpuIdle | .keyboardRoutine | .clkRoutine => True
  | _ => False

/-- Tasks are where their states say, a semaphore without an owner has no
waiters, and the idle task never waits and is never freed. -/
structure Orderly (kernel : SequenceKernel) : Prop where
  placed : Placed kernel.states kernel.queues
  unowned : ∀ sem, (kernel.core.semArray sem).ownerPid = -1 →
    kernel.queues.elements (.blocked sem) = []
  idleAllocated : kernel.core.idleTask ∉ kernel.queues.elements .freequeue
  idleAwake : (kernel.core.task kernel.core.idleTask).state ≠ .blocked
  idleStack : ∀ frame ∈ (kernel.core.task kernel.core.idleTask).kernelEsp, frame.OfInterrupt

structure Disciplined (kernel : SequenceKernel) : Prop extends Orderly kernel where
  currentUnlinked : ¬kernel.queues.Linked kernel.core.current

/-- `core` differs from `other` in nothing the discipline depends on, apart from
the state of `t`. -/
structure AgreesBut (t : TaskId) (core other : Core) : Prop where
  states : ∀ rest, rest ≠ t → (core.task rest).state = (other.task rest).state
  owners : ∀ sem, (core.semArray sem).ownerPid = -1 → (other.semArray sem).ownerPid = -1
  idleTask : core.idleTask = other.idleTask
  idleStack : (core.task core.idleTask).kernelEsp = (other.task other.idleTask).kernelEsp

namespace Orderly

variable {kernel : SequenceKernel} {core : Core} {t : TaskId}

theorem congr (orderly : Orderly kernel) (agrees : AgreesBut t core kernel.core)
    (here : (core.task t).state = (kernel.core.task t).state) :
    Orderly ⟨core, kernel.queues⟩ := by
  have states : ∀ rest, (core.task rest).state = (kernel.core.task rest).state := by
    intro rest
    by_cases same : rest = t
    · rw [same, here]
    · exact agrees.states rest same
  refine ⟨?_, fun sem owner => orderly.unowned sem (agrees.owners sem owner), ?_, ?_, ?_⟩
  · have same : Kernel.states ⟨core, kernel.queues⟩ = kernel.states := funext states
    rw [same]
    exact orderly.placed
  · rw [agrees.idleTask]
    exact orderly.idleAllocated
  · rw [states, agrees.idleTask]
    exact orderly.idleAwake
  · rw [agrees.idleStack]
    exact orderly.idleStack

theorem idle_linked (orderly : Orderly kernel) {queue : Queue}
    (member : kernel.core.idleTask ∈ kernel.queues.elements queue) : queue = .readyqueue := by
  have state : (kernel.core.task kernel.core.idleTask).state = stateWithin queue :=
    orderly.placed.within member
  have awake := orderly.idleAwake
  cases queue with
  | freequeue => exact absurd member orderly.idleAllocated
  | readyqueue => rfl
  | keyboardqueue => exact absurd state awake
  | blocked sem => exact absurd state awake

theorem remove (orderly : Orderly kernel) (agrees : AgreesBut t core kernel.core)
    (here : (core.task t).state = .run) : Orderly ⟨core, kernel.queues.remove t⟩ where
  placed := orderly.placed.remove agrees.states here
  unowned sem owner := by
    have empty : kernel.queues.elements (.blocked sem) = [] :=
      orderly.unowned sem (agrees.owners sem owner)
    simp [empty]
  idleAllocated := by
    intro member
    rw [agrees.idleTask] at member
    exact orderly.idleAllocated (orderly.placed.mem_remove.mp member).2
  idleAwake := by
    rw [agrees.idleTask]
    by_cases same : kernel.core.idleTask = t
    · rw [same, here]
      exact ProcessState.noConfusion
    · rw [agrees.states _ same]
      exact orderly.idleAwake
  idleStack := by
    rw [agrees.idleStack]
    exact orderly.idleStack

/-- A task that is not idle may be put into any queue; the idle task only
becomes ready. -/
structure MayEnter (core : Core) (t : TaskId) (queue : Queue) : Prop where
  state : (core.task t).state = stateWithin queue
  notIdle : queue ≠ .readyqueue → t ≠ core.idleTask
  owned : ∀ sem, queue = .blocked sem → (core.semArray sem).ownerPid ≠ -1

private theorem moved (orderly : Orderly kernel) (agrees : AgreesBut t core kernel.core)
    {queue : Queue} (enters : MayEnter core t queue) {moved : List TaskId}
    (members : ∀ other, other ∈ moved ↔
      other = t ∨ other ∈ (kernel.queues.remove t).elements queue)
    (placed : Placed (Kernel.states ⟨core, (kernel.queues.remove t).set queue moved⟩)
      ((kernel.queues.remove t).set queue moved)) :
    Orderly ⟨core, (kernel.queues.remove t).set queue moved⟩ where
  placed := placed
  unowned sem owner := by
    have different : Queue.blocked sem ≠ queue := fun same =>
      enters.owned sem same.symm owner
    have empty : kernel.queues.elements (.blocked sem) = [] :=
      orderly.unowned sem (agrees.owners sem owner)
    simp [different, empty]
  idleAllocated := by
    intro member
    simp only [Sequences.set_elements] at member
    rw [agrees.idleTask] at member
    by_cases free : Queue.freequeue = queue
    · rw [if_pos free, members] at member
      rcases member with isIdle | old
      · have notIdle := enters.notIdle (by rw [← free]; exact Queue.noConfusion)
        exact notIdle (by rw [agrees.idleTask, isIdle])
      · rw [← free] at old
        exact orderly.idleAllocated (orderly.placed.mem_remove.mp old).2
    · rw [if_neg free] at member
      exact orderly.idleAllocated (orderly.placed.mem_remove.mp member).2
  idleAwake := by
    by_cases same : core.idleTask = t
    · have isReady : queue = .readyqueue := by
        by_contra other
        exact enters.notIdle other same.symm
      have ready := enters.state
      rw [isReady] at ready
      show (core.task core.idleTask).state ≠ .blocked
      rw [same, ready]
      exact ProcessState.noConfusion
    · show (core.task core.idleTask).state ≠ .blocked
      rw [agrees.states _ same, agrees.idleTask]
      exact orderly.idleAwake
  idleStack := by
    show ∀ frame ∈ (core.task core.idleTask).kernelEsp, frame.OfInterrupt
    rw [agrees.idleStack]
    exact orderly.idleStack

theorem toTail (orderly : Orderly kernel) (agrees : AgreesBut t core kernel.core)
    {queue : Queue} (enters : MayEnter core t queue) :
    Orderly ⟨core, kernel.queues.toTail t queue⟩ :=
  orderly.moved agrees enters (by simp [or_comm])
    (orderly.placed.toTail queue agrees.states enters.state)

theorem toFront (orderly : Orderly kernel) (agrees : AgreesBut t core kernel.core)
    {queue : Queue} (enters : MayEnter core t queue) :
    Orderly ⟨core, kernel.queues.toFront t queue⟩ :=
  orderly.moved agrees enters (by simp)
    (orderly.placed.toFront queue agrees.states enters.state)

end Orderly

/-! ## Dispatching -/

/-- The variables after `sched_next_rr` took `next` from the readyqueue. -/
def Core.switchTo (core : Core) (next : TaskId) (frames : List Frame) : Core :=
  let core := (core.setState next .run).chargeSystem
  { core with leftTicks := (core.task next).quantum }.taskSwitch next (.schedNextRr :: frames)

@[simp] theorem Core.switchTo_task (core : Core) (next t : TaskId) (frames : List Frame) :
    (core.switchTo next frames).task t =
      { core.task t with
        state := if t = next then .run else (core.task t).state
        kernelEsp := if t = core.current then .schedNextRr :: frames else (core.task t).kernelEsp
        pStats := ((core.setState next .run).chargeSystem.task t).pStats } := by
  simp [Core.switchTo, Core.taskSwitch, Core.modifyTask, Function.update_apply]
  split <;> simp_all

@[simp] theorem Core.switchTo_frame (core : Core) (next : TaskId) (frames : List Frame) :
    (core.switchTo next frames).mm = core.mm ∧
      (core.switchTo next frames).idleTask = core.idleTask ∧
      (core.switchTo next frames).semArray = core.semArray ∧
      (core.switchTo next frames).globalPID = core.globalPID ∧
      (core.switchTo next frames).circbuff = core.circbuff ∧
      (core.switchTo next frames).keyboardReadersCount = core.keyboardReadersCount ∧
      (core.switchTo next frames).current = next ∧
      (core.switchTo next frames).inKernel = true :=
  ⟨rfl, rfl, rfl, rfl, rfl, rfl, rfl, rfl⟩

namespace Kernel

def dispatch (kernel : SequenceKernel) (frames : List Frame) : SequenceKernel :=
  match kernel.queues.elements .readyqueue with
  | [] => ⟨kernel.core.taskSwitch kernel.core.idleTask frames, kernel.queues⟩
  | next :: _ => ⟨kernel.core.switchTo next frames, kernel.queues.remove next⟩

theorem schedNextRr_eq {kernel : SequenceKernel} (placed : Placed kernel.states kernel.queues)
    (frames : List Frame) : kernel.schedNextRr frames = .ok (kernel.dispatch frames) := by
  unfold schedNextRr dispatch
  cases contents : kernel.queues.elements .readyqueue with
  | nil => simp [contents, mapCore]
  | cons next rest =>
      have member : next ∈ kernel.queues.elements .readyqueue := by
        rw [contents]
        exact List.mem_cons_self
      have ready : (kernel.core.task next).state = .ready := placed.within member
      have linked : kernel.queues.Linked next := ⟨_, member⟩
      simp [contents, first_eq contents, updateProcessStateRr, ready, del_eq linked, mapCore,
        stateIn, Core.switchTo]

@[simp] theorem dispatch_frame (kernel : SequenceKernel) (frames : List Frame) :
    (kernel.dispatch frames).core.mm = kernel.core.mm ∧
      (kernel.dispatch frames).core.idleTask = kernel.core.idleTask ∧
      (kernel.dispatch frames).core.semArray = kernel.core.semArray ∧
      (kernel.dispatch frames).core.globalPID = kernel.core.globalPID ∧
      (kernel.dispatch frames).core.circbuff = kernel.core.circbuff ∧
      (kernel.dispatch frames).core.keyboardReadersCount = kernel.core.keyboardReadersCount ∧
      (kernel.dispatch frames).core.inKernel = true := by
  unfold dispatch
  split <;> simp

@[simp] theorem dispatch_task_frame (kernel : SequenceKernel) (frames : List Frame)
    (t : TaskId) :
    ((kernel.dispatch frames).core.task t).pid = (kernel.core.task t).pid ∧
      ((kernel.dispatch frames).core.task t).dirPagesBaseAddr =
        (kernel.core.task t).dirPagesBaseAddr ∧
      ((kernel.dispatch frames).core.task t).posInDirCounter =
        (kernel.core.task t).posInDirCounter ∧
      ((kernel.dispatch frames).core.task t).quantum = (kernel.core.task t).quantum ∧
      ((kernel.dispatch frames).core.task t).semdestroyed = (kernel.core.task t).semdestroyed ∧
      ((kernel.dispatch frames).core.task t).context = (kernel.core.task t).context := by
  unfold dispatch
  split <;> simp

theorem dispatch_kernelEsp (kernel : SequenceKernel) (frames : List Frame) (t : TaskId) :
    ((kernel.dispatch frames).core.task t).kernelEsp =
      if t = kernel.core.current then
        (if kernel.queues.elements .readyqueue = [] then frames else .schedNextRr :: frames)
      else (kernel.core.task t).kernelEsp := by
  unfold dispatch
  split
  · rename_i empty
    simp [empty]
  · rename_i next rest contents
    simp [contents]

@[simp] theorem leaveUnlessSwitched_dispatch (kernel : SequenceKernel) (frames : List Frame) :
    (kernel.dispatch frames).leaveUnlessSwitched = kernel.dispatch frames := by
  simp [leaveUnlessSwitched]

theorem dispatch_elements {kernel : SequenceKernel} (placed : Placed kernel.states kernel.queues)
    (frames : List Frame) {queue : Queue} (notReady : queue ≠ .readyqueue) :
    (kernel.dispatch frames).queues.elements queue = kernel.queues.elements queue := by
  unfold dispatch
  split
  · rfl
  · rename_i next rest contents
    have member : next ∈ kernel.queues.elements .readyqueue := by simp [contents]
    exact List.erase_of_not_mem fun elsewhere => notReady (placed.apart elsewhere member)

theorem dispatch_readyqueue (kernel : SequenceKernel) (frames : List Frame) :
    (kernel.dispatch frames).queues.elements .readyqueue =
      (kernel.queues.elements .readyqueue).tail := by
  unfold dispatch
  split
  · rename_i empty
    simp [empty]
  · rename_i next rest contents
    simp [contents]

theorem dispatch_current (kernel : SequenceKernel) (frames : List Frame) :
    (kernel.dispatch frames).core.current =
      (kernel.queues.elements .readyqueue).headD kernel.core.idleTask := by
  unfold dispatch
  split
  · rename_i empty
    simp [empty]
  · rename_i next rest contents
    simp [contents]

theorem dispatch_disciplined {kernel : SequenceKernel} (orderly : Orderly kernel)
    {frames : List Frame}
    (suspended : kernel.core.current = kernel.core.idleTask →
      ∀ frame ∈ frames, frame.OfInterrupt) :
    Disciplined (kernel.dispatch frames) := by
  have stack : ∀ (frames' : List Frame),
      (kernel.core.current = kernel.core.idleTask → ∀ frame ∈ frames', frame.OfInterrupt) →
      ∀ frame ∈ (if kernel.core.idleTask = kernel.core.current then frames'
        else (kernel.core.task kernel.core.idleTask).kernelEsp), frame.OfInterrupt := by
    intro frames' fine
    by_cases same : kernel.core.idleTask = kernel.core.current
    · rw [if_pos same]
      exact fine same.symm
    · rw [if_neg same]
      exact orderly.idleStack
  unfold dispatch
  cases contents : kernel.queues.elements .readyqueue with
  | nil =>
      have unlinked : ¬kernel.queues.Linked kernel.core.idleTask := by
        intro linked
        rcases linked with ⟨queue, member⟩
        have isReady := orderly.idle_linked member
        subst isReady
        rw [contents] at member
        cases member
      refine ⟨⟨?_, ?_, ?_, ?_, ?_⟩, unlinked⟩
      · have same : states ⟨kernel.core.taskSwitch kernel.core.idleTask frames, kernel.queues⟩ =
            kernel.states := by
          funext t
          simp [states]
        rw [same]
        exact orderly.placed
      · simpa using orderly.unowned
      · exact orderly.idleAllocated
      · simpa using orderly.idleAwake
      · simpa using stack frames suspended
  | cons next rest =>
      have waiting : ∀ frame ∈ Frame.schedNextRr :: frames,
          kernel.core.current = kernel.core.idleTask → frame.OfInterrupt := by
        intro frame member isIdle
        rcases List.mem_cons.mp member with isTail | later
        · subst isTail
          trivial
        · exact suspended isIdle frame later
      refine ⟨⟨?_, ?_, ?_, ?_, ?_⟩, ?_⟩
      · refine orderly.placed.remove (fun other different => ?_) ?_
        · simp [states, different]
        · simp [states]
      · intro sem owner
        have empty : kernel.queues.elements (.blocked sem) = [] :=
          orderly.unowned sem (by simpa using owner)
        simp [empty]
      · intro member
        exact orderly.idleAllocated (orderly.placed.mem_remove.mp (by simpa using member)).2
      · by_cases same : kernel.core.idleTask = next
        · simp [same]
        · simpa [same] using orderly.idleAwake
      · simpa using stack _ fun isIdle frame member => waiting frame member isIdle
      · exact orderly.placed.remove_not_linked

end Kernel

end Zeos
