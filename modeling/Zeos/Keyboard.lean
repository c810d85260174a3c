import Zeos.Circbuff
import Zeos.Suspension

/-! # The keyboard

The ring, the readers that wait for it and what each has asked for, as a protocol
between key presses and reads. The kernel's steps are steps of this protocol.
-/

namespace Zeos

open Foundation Kernel

structure Input where
  caller : TaskId
  pt : DirSlot
  mm : Mm
  ring : Circbuff
  waiting : List TaskId
  wanted : TaskId → Int
  top : TaskId → Option Frame

def Kernel.input (kernel : SequenceKernel) : Input where
  caller := kernel.core.current
  pt := kernel.currentTask.dirPagesBaseAddr
  mm := kernel.core.mm
  ring := kernel.core.circbuff
  waiting := kernel.queues.elements .keyboardqueue
  wanted := kernel.core.keyboardReadersCount
  top := kernel.top

@[simp] theorem Kernel.input_ring (kernel : SequenceKernel) :
    kernel.input.ring = kernel.core.circbuff := rfl

def Kernel.resumed (kernel : SequenceKernel) : Option TaskId :=
  if kernel.core.inKernel = true then some kernel.core.current else none

def Unread (after : Input) (resumed : Option TaskId) : Prop :=
  ∀ t, resumed = some t → ¬Reads (after.top t)

/-- The readers that wait keep their stacks. -/
def Undisturbed (view after : Input) : Prop := ∀ t ∈ view.waiting, after.top t = view.top t

/-- The loop of `sys_read_keyboard` from position `i`: it takes the oldest
characters until it has enough, or waits again when it sees none. -/
inductive LoopStep (view : Input) (buffer : Nat) (count i : Int) :
    Input → Option TaskId → Prop
  | finished (after : Input) (taken : List UInt8)
      (stored : view.mm.storeBytes view.pt (toUnsigned (buffer + i)) taken = .ok after.mm)
      (oldest : taken = view.ring.oldest taken.length) (enough : taken.length ≤ view.ring.visible)
      (complete : i + taken.length = count ∨ taken = [] ∧ count ≤ i)
      (ring : after.ring = view.ring.pops taken.length) (waiting : after.waiting = view.waiting)
      (wanted : after.wanted = view.wanted) (undisturbed : Undisturbed view after)
      (caller : after.caller = view.caller) : LoopStep view buffer count i after none
  | waits (after : Input) (resumed : Option TaskId) (taken : List UInt8)
      (stored : view.mm.storeBytes view.pt (toUnsigned (buffer + i)) taken = .ok after.mm)
      (oldest : taken = view.ring.oldest taken.length) (enough : taken.length ≤ view.ring.visible)
      (more : i + taken.length < count) (drained : after.ring.visible = 0)
      (ring : after.ring = view.ring.pops taken.length)
      (waiting : after.waiting = view.caller :: view.waiting)
      (wanted : after.wanted = view.wanted) (undisturbed : Undisturbed view after)
      (top : after.top view.caller = some (.sysReadLoop buffer count (i + taken.length)))
      (unread : Unread after resumed) : LoopStep view buffer count i after resumed

def Input.requesting (view : Input) (count : Int) : Input :=
  { view with wanted := Function.update view.wanted view.caller count }

def Input.Accepts (view : Input) (llegit : UInt8) : Prop :=
  ¬view.ring.full = true ∧ llegit.toNat < 128 ∧ view.waiting ≠ []

/-- A key press completes the request of `reader`, or fills the ring. -/
def Input.Completes (view : Input) (llegit : UInt8) (reader : TaskId) : Prop :=
  (view.ring.push (charOf llegit)).full = true ∨
    ((view.ring.push (charOf llegit)).counter : Int) = view.wanted reader

inductive InputStep (view : Input) : Event → Input → Option TaskId → Prop
  | quiet (event : Event) (after : Input) (resumed : Option TaskId)
      (ring : after.ring = view.ring) (waiting : after.waiting = view.waiting)
      (wanted : after.wanted = view.wanted) (undisturbed : Undisturbed view after)
      (unread : Unread after resumed)
      (notLoop : event = .resume → ∀ buffer count i,
        view.top view.caller ≠ some (.sysReadLoop buffer count i))
      (notRead : ∀ fd buffer count i, event = .read fd buffer count i →
        ¬ReadAccepted fd buffer count)
      (notKey : ∀ llegit, event = .keyboard llegit → ¬view.Accepts llegit)
      (returns : event = .resume → resumed = none ∧ after.caller = view.caller) :
      InputStep view event after resumed
  | pushes (llegit : UInt8) (after : Input) (accepts : view.Accepts llegit)
      (reader : TaskId) (rest : List TaskId) (first : view.waiting = reader :: rest)
      (incomplete : ¬view.Completes llegit reader)
      (ring : after.ring = view.ring.push (charOf llegit)) (waiting : after.waiting = view.waiting)
      (wanted : after.wanted = view.wanted) (undisturbed : Undisturbed view after) :
      InputStep view (.keyboard llegit) after none
  | wakes (llegit : UInt8) (after : Input) (accepts : view.Accepts llegit)
      (reader : TaskId) (rest : List TaskId) (first : view.waiting = reader :: rest)
      (complete : view.Completes llegit reader)
      (ring : after.ring = view.ring.push (charOf llegit)) (waiting : after.waiting = rest)
      (wanted : after.wanted = Function.update view.wanted reader
        (view.wanted reader - (view.ring.push (charOf llegit)).counter))
      (undisturbed : Undisturbed view after) :
      InputStep view (.keyboard llegit) after (some reader)
  | calls (fd : Int) (buffer : Nat) (count i : Int) (after : Input) (resumed : Option TaskId)
      (accepted : ReadAccepted fd buffer count) (alone : view.waiting = [])
      (loop : LoopStep (view.requesting count) buffer count i after resumed) :
      InputStep view (.read fd buffer count i) after resumed
  | queues (fd : Int) (buffer : Nat) (count i : Int) (after : Input) (resumed : Option TaskId)
      (accepted : ReadAccepted fd buffer count) (behind : view.waiting ≠ [])
      (ring : after.ring = view.ring) (waiting : after.waiting = view.waiting ++ [view.caller])
      (wanted : after.wanted = Function.update view.wanted view.caller count)
      (undisturbed : Undisturbed view after) (top : after.top view.caller = some .sysReadQueued)
      (unread : Unread after resumed) : InputStep view (.read fd buffer count i) after resumed
  | reads (buffer : Nat) (count i : Int) (after : Input) (resumed : Option TaskId)
      (top : view.top view.caller = some (.sysReadLoop buffer count i))
      (loop : LoopStep view buffer count i after resumed) : InputStep view .resume after resumed

/-! ## The steps of the kernel -/

section Effects

variable {kernel after : SequenceKernel}

structure Quiet (kernel after : SequenceKernel) : Prop where
  ring : after.core.circbuff = kernel.core.circbuff
  waiting : after.queues.elements .keyboardqueue = kernel.queues.elements .keyboardqueue
  wanted : after.core.keyboardReadersCount = kernel.core.keyboardReadersCount
  undisturbed : ∀ t ∈ kernel.queues.elements .keyboardqueue, after.top t = kernel.top t
  unread : after.core.inKernel = true → ¬Reads (after.top after.core.current)

theorem Quiet.step {event : Event} (quiet : Quiet kernel after)
    (notLoop : event = .resume → ∀ buffer count i,
      kernel.top kernel.core.current ≠ some (.sysReadLoop buffer count i))
    (notRead : ∀ fd buffer count i, event = .read fd buffer count i →
      ¬ReadAccepted fd buffer count)
    (notKey : ∀ llegit, event = .keyboard llegit → ¬kernel.input.Accepts llegit)
    (returns : event = .resume → after.core.inKernel = false ∧
      after.core.current = kernel.core.current) :
    InputStep kernel.input event after.input after.resumed := by
  have back :
      event = .resume → after.resumed = none ∧ after.input.caller = kernel.input.caller := by
    intro isResume
    rcases returns isResume with ⟨mode, current⟩
    exact ⟨by simp [Kernel.resumed, mode], current⟩
  refine .quiet event after.input after.resumed quiet.ring quiet.waiting quiet.wanted
    quiet.undisturbed ?_ notLoop notRead notKey back
  intro t switched
  unfold Kernel.resumed at switched
  split at switched
  · rename_i inKernel
    cases switched
    exact quiet.unread inKernel
  · cases switched

theorem Quiet.call {event : Event} (quiet : Quiet kernel after) (notResume : event ≠ .resume)
    (notInterrupt : event.IsInterrupt = false)
    (notRead : ∀ fd buffer count i, event ≠ .read fd buffer count i) :
    InputStep kernel.input event after.input after.resumed := by
  apply quiet.step
  · exact fun isResume => absurd isResume notResume
  · exact fun fd buffer count i isRead => absurd isRead (notRead fd buffer count i)
  · intro llegit isKey
    subst isKey
    cases notInterrupt
  · exact fun isResume => absurd isResume notResume

theorem Quiet.refl (notInKernel : kernel.core.inKernel = false) : Quiet kernel kernel :=
  ⟨rfl, rfl, rfl, fun _ _ => rfl, fun inKernel => by simp [notInKernel] at inKernel⟩

theorem Quiet.returns (called : SequenceKernel) (notInKernel : after.core.inKernel = false)
    (ring : after.core.circbuff = called.core.circbuff) (queues : after.queues = called.queues)
    (wanted : after.core.keyboardReadersCount = called.core.keyboardReadersCount)
    (tops : ∀ t, after.top t = called.top t)
    (calledRing : called.core.circbuff = kernel.core.circbuff)
    (calledWanted : called.core.keyboardReadersCount = kernel.core.keyboardReadersCount)
    (waiting : called.queues.elements .keyboardqueue = kernel.queues.elements .keyboardqueue)
    (undisturbed : ∀ t ∈ kernel.queues.elements .keyboardqueue, called.top t = kernel.top t) :
    Quiet kernel after where
  ring := ring.trans calledRing
  waiting := by rw [queues, waiting]
  wanted := wanted.trans calledWanted
  undisturbed t member := by rw [tops, undisturbed t member]
  unread inKernel := by simp [notInKernel] at inKernel

theorem finishCall_quiet {called : SequenceKernel} {result : Int}
    (ring : called.core.circbuff = kernel.core.circbuff)
    (wanted : called.core.keyboardReadersCount = kernel.core.keyboardReadersCount)
    (waiting : called.queues.elements .keyboardqueue = kernel.queues.elements .keyboardqueue)
    (undisturbed : ∀ t ∈ kernel.queues.elements .keyboardqueue, called.top t = kernel.top t) :
    Quiet kernel (finishCall (called, some result)) :=
  .returns called (by simp [finishCall, mapCore]) (by simp [finishCall, mapCore]) rfl
    (by simp [finishCall, mapCore]) (by simp) ring wanted waiting undisturbed

theorem finishCall_quiet_same {called : SequenceKernel} {result : Int}
    (ring : called.core.circbuff = kernel.core.circbuff)
    (wanted : called.core.keyboardReadersCount = kernel.core.keyboardReadersCount)
    (queues : called.queues = kernel.queues)
    (unwritten : ∀ t, (called.core.task t).kernelEsp = (kernel.core.task t).kernelEsp) :
    Quiet kernel (finishCall (called, some result)) :=
  finishCall_quiet ring wanted (by rw [queues]) fun t _ => congrArg topFrame (unwritten t)

theorem ForkOutcome.quiet (disciplined : Disciplined kernel) {outcome : SequenceKernel × Int}
    (forked : ForkOutcome kernel outcome) :
    Quiet kernel (finishCall (outcome.1, some outcome.2)) := by
  have apart : ∀ {child rest}, kernel.queues.elements .freequeue = child :: rest →
      child ∉ kernel.queues.elements .keyboardqueue := by
    intro child rest free
    have member : child ∈ kernel.queues.elements .freequeue := by simp [free]
    exact disciplined.placed.not_elsewhere member Queue.noConfusion
  cases forked with
  | full empty => exact finishCall_quiet_same rfl rfl rfl fun _ => rfl
  | noMemory child rest free mm outOfFrames =>
      apply finishCall_quiet
      · simp [forkFailed]
      · simp [forkFailed]
      · exact List.erase_of_not_mem (apart free)
      · intro t member
        have different : t ≠ child := fun same => apart free (same ▸ member)
        simp [top, forkFailed, different]
  | forked child rest free mm copied =>
      apply finishCall_quiet
      · simp [Kernel.forked]
      · simp [Kernel.forked]
      · exact Sequences.toTail_elements_of_ne Queue.noConfusion (apart free)
      · intro t member
        have different : t ≠ child := fun same => apart free (same ▸ member)
        simp [top, Kernel.forked, different]

theorem CloneOutcome.quiet (disciplined : Disciplined kernel) {function stack : Nat}
    {outcome : SequenceKernel × Int} (cloned : CloneOutcome kernel function stack outcome) :
    Quiet kernel (finishCall (outcome.1, some outcome.2)) := by
  cases cloned with
  | refused error negative => exact finishCall_quiet_same rfl rfl rfl fun _ => rfl
  | cloned child rest free =>
      have member : child ∈ kernel.queues.elements .freequeue := by simp [free]
      have apart : child ∉ kernel.queues.elements .keyboardqueue :=
        disciplined.placed.not_elsewhere member Queue.noConfusion
      apply finishCall_quiet
      · simp [Kernel.cloned, Core.cloneTo]
      · simp [Kernel.cloned, Core.cloneTo]
      · exact Sequences.toTail_elements_of_ne Queue.noConfusion apart
      · intro t member
        have different : t ≠ child := fun same => apart (same ▸ member)
        simp [top, Kernel.cloned, Core.cloneTo, different]

theorem SignalOutcome.quiet (disciplined : Disciplined kernel) {nSem : Int}
    {outcome : SequenceKernel × Int} (signalled : SignalOutcome kernel nSem outcome) :
    Quiet kernel (finishCall (outcome.1, some outcome.2)) := by
  cases signalled with
  | refused unusable => exact finishCall_quiet_same rfl rfl rfl fun _ => rfl
  | counts sem index owned empty =>
      exact finishCall_quiet_same (by simp) (by simp) rfl (by simp)
  | wakes sem index owned first rest waiting =>
      have member : first ∈ kernel.queues.elements (.blocked sem) := by simp [waiting]
      apply finishCall_quiet
      · simp [wake]
      · simp [wake]
      · exact Sequences.toTail_elements_of_ne Queue.noConfusion
          (disciplined.placed.not_elsewhere member Queue.noConfusion)
      · intro t _
        simp [top, wake]

theorem DestroyOutcome.quiet {nSem : Int} {outcome : SequenceKernel × Int}
    (destroyed : DestroyOutcome kernel nSem outcome) :
    Quiet kernel (finishCall (outcome.1, some outcome.2)) := by
  cases destroyed with
  | refused unusable => exact finishCall_quiet_same rfl rfl rfl fun _ => rfl
  | notOwner sem index owned other => exact finishCall_quiet_same rfl rfl rfl fun _ => rfl
  | destroyed sem index owned owner after woken orderly semArray =>
      apply finishCall_quiet
      · rw [woken.rest]
      · rw [woken.rest]
      · exact woken.keyboardqueue
      · exact fun t _ => woken.tops t

theorem InitOutcome.quiet {nSem : Int} {value : Nat} {outcome : SequenceKernel × Int}
    (initialised : InitOutcome kernel nSem value outcome) :
    Quiet kernel (finishCall (outcome.1, some outcome.2)) := by
  cases initialised with
  | refused index => exact finishCall_quiet_same rfl rfl rfl fun _ => rfl
  | busy sem index owned => exact finishCall_quiet_same rfl rfl rfl fun _ => rfl
  | initialised sem index unowned => exact finishCall_quiet_same (by simp) (by simp) rfl (by simp)

theorem StatsOutcome.quiet {pid : Int} {st : Nat} {outcome : SequenceKernel × Int}
    (told : StatsOutcome kernel pid st outcome) :
    Quiet kernel (finishCall (outcome.1, some outcome.2)) := by
  cases told with
  | refused error positive => exact finishCall_quiet_same rfl rfl rfl fun _ => rfl
  | stored t found notNegative accepted mm stored =>
      apply finishCall_quiet_same
      · rfl
      · rfl
      · rfl
      · intro other
        show ((kernel.core.setRemaining t).task other).kernelEsp = _
        rw [Core.setRemaining_task]

/-- Another task gets the processor, and the current one is put into a queue that
is not the keyboard's. -/
theorem dispatch_quiet {moved : SequenceKernel} {frames : List Frame} (orderly : Orderly moved)
    (suspended : ∀ t, t ∈ moved.queues.elements .readyqueue → t ≠ moved.core.current →
      ¬Reads (moved.top t))
    (fits : ¬Reads (topFrame frames))
    (notWaiting : moved.core.current ∉ kernel.queues.elements .keyboardqueue)
    (ring : moved.core.circbuff = kernel.core.circbuff)
    (wanted : moved.core.keyboardReadersCount = kernel.core.keyboardReadersCount)
    (waiting : moved.queues.elements .keyboardqueue = kernel.queues.elements .keyboardqueue)
    (undisturbed : ∀ t ∈ kernel.queues.elements .keyboardqueue, t ≠ moved.core.current →
      moved.top t = kernel.top t) :
    Quiet kernel (moved.dispatch frames) where
  ring := by simpa using ring
  waiting := (dispatch_elements orderly.placed frames Queue.noConfusion).trans waiting
  wanted := by simpa using wanted
  undisturbed t member := by
    have notCurrent : t ≠ moved.core.current := fun same => notWaiting (same ▸ member)
    rw [dispatch_top, if_neg notCurrent]
    exact undisturbed t member notCurrent
  unread _ := dispatch_not_reads orderly suspended (.inl fits)

theorem parkTail_quiet (disciplined : Disciplined kernel) (suspended : Suspended kernel)
    {queue : Queue} {frames : List Frame} (other : Queue.keyboardqueue ≠ queue)
    (fits : ¬Reads (topFrame frames))
    (notIdle : queue ≠ .readyqueue → kernel.core.current ≠ kernel.core.idleTask)
    (owned : ∀ sem, queue = .blocked sem → (kernel.core.semArray sem).ownerPid ≠ -1) :
    Quiet kernel (kernel.parkTail queue frames) := by
  have orderly := disciplined.toOrderly.toTail (agreesBut_setState kernel _ _)
    (mayEnter_setState notIdle owned)
  have same : ∀ t, Kernel.top ⟨kernel.core.setState kernel.core.current (stateWithin queue),
      kernel.queues.toTail kernel.core.current queue⟩ t = kernel.top t := by
    intro t
    simp [top]
  apply dispatch_quiet orderly
  · intro t ready notCurrent
    rw [same]
    rcases mem_toTail disciplined.currentUnlinked ready with ⟨-, isCurrent⟩ | old
    · exact absurd isCurrent notCurrent
    · exact suspended .readyqueue t old
  · exact fits
  · exact fun member => disciplined.currentUnlinked ⟨_, member⟩
  · simp
  · simp
  · exact (Sequences.toTail_unlinked disciplined.currentUnlinked).trans (if_neg other)
  · exact fun t _ _ => same t

theorem WaitOutcome.quiet (disciplined : Disciplined kernel) (suspended : Suspended kernel)
    (notIdle : kernel.core.current ≠ kernel.core.idleTask) {nSem : Int}
    {outcome : SequenceKernel × Option Int} (waited : WaitOutcome kernel nSem outcome) :
    Quiet kernel (finishCall outcome) := by
  cases waited with
  | refused unusable => exact finishCall_quiet_same rfl rfl rfl fun _ => rfl
  | passes sem index owned positive =>
      exact finishCall_quiet_same (by simp) (by simp) rfl (by simp)
  | blocks sem index owned exhausted =>
      apply parkTail_quiet disciplined suspended Queue.noConfusion
      · exact not_reads_of_semWait rfl
      · exact fun _ => notIdle
      · intro other same
        cases same
        exact owned

theorem ExitOutcome.quiet (disciplined : Disciplined kernel) (suspended : Suspended kernel)
    (notIdle : kernel.core.current ≠ kernel.core.idleTask) (exited : ExitOutcome kernel after) :
    Quiet kernel after := by
  cases exited with
  | exited released destroyed mm freed =>
      have woken := destroyed.woken
      have current := woken.current_eq
      have idleTask : released.core.idleTask = kernel.core.idleTask := by rw [woken.rest]
      have unlinked := woken.current_unlinked disciplined
      rcases freed_agrees destroyed.orderly unlinked mm with ⟨agrees, running⟩
      have enters : Orderly.MayEnter (released.freed mm).core released.core.current .freequeue :=
        ⟨running, fun _ => by simpa [Kernel.freed, current, idleTask] using notIdle,
          fun sem same => by cases same⟩
      have orderly : Orderly (released.freed mm) := destroyed.orderly.toTail agrees enters
      have suspended' := woken.suspended suspended
      have others : ∀ t, t ≠ released.core.current →
          Kernel.top (released.freed mm) t = released.top t := by
        intro t different
        simp [top, Kernel.freed, different]
      have outgoing : (released.freed mm).core.current = released.core.current := by
        simp [Kernel.freed]
      apply dispatch_quiet orderly
      · intro t ready notCurrent
        rw [outgoing] at notCurrent
        rw [others t notCurrent]
        rcases mem_toTail unlinked ready with ⟨isFree, -⟩ | old
        · cases isFree
        · exact suspended' .readyqueue t old
      · simp [Reads, topFrame]
      · rw [outgoing, current]
        exact fun member => disciplined.currentUnlinked ⟨_, member⟩
      · simp [Kernel.freed]
        rw [woken.rest]
      · simp [Kernel.freed]
        rw [woken.rest]
      · refine Eq.trans ?_ woken.keyboardqueue
        exact (Sequences.toTail_unlinked unlinked).trans (if_neg Queue.noConfusion)
      · intro t _ notCurrent
        rw [outgoing] at notCurrent
        rw [others t notCurrent, woken.tops]

theorem ClockOutcome.quiet (disciplined : Disciplined kernel) (suspended : Suspended kernel)
    (notInKernel : kernel.core.inKernel = false) (clock : ClockOutcome kernel after) :
    Quiet kernel after.leaveUnlessSwitched := by
  cases clock with
  | continues left =>
      rw [leaveUnlessSwitched, if_neg (by simp [notInKernel])]
      exact .returns kernel (by simp [mapCore]) (by simp [mapCore]) rfl (by simp [mapCore])
        (by simp) rfl rfl rfl fun _ _ => rfl
  | idles expired idle =>
      rw [leaveUnlessSwitched_dispatch]
      apply dispatch_quiet disciplined.toOrderly
      · exact fun t ready _ => suspended .readyqueue t ready
      · simp [Reads, topFrame]
      · exact fun member => disciplined.currentUnlinked ⟨_, member⟩
      · rfl
      · rfl
      · rfl
      · exact fun _ _ _ => rfl
  | preempts expired notIdle =>
      rw [parkTail, leaveUnlessSwitched_dispatch]
      exact parkTail_quiet disciplined suspended Queue.noConfusion (by simp [Reads, topFrame])
        (fun _ => notIdle) fun _ same => by cases same

@[simp] theorem finishCall_input (outcome : SequenceKernel × Option Int) :
    (finishCall outcome).input = outcome.1.input := by
  rcases outcome with ⟨called, result⟩
  cases result with
  | none => rfl
  | some result =>
      have tops : (finishCall (called, some result)).top = called.top := funext (by simp)
      simp only [input, tops]
      simp [finishCall, mapCore, currentTask]

theorem finishCall_resumed (called : SequenceKernel) (result : Int) :
    (finishCall (called, some result)).resumed = none := by
  simp [resumed, finishCall, mapCore]

@[simp] theorem leaveKernel_input (kernel : SequenceKernel) :
    (kernel.mapCore Core.leaveKernel).input = kernel.input := by
  have tops : (kernel.mapCore Core.leaveKernel).top = kernel.top := funext (by simp)
  simp only [input, tops]
  simp [mapCore, currentTask]

theorem leaveKernel_resumed (kernel : SequenceKernel) :
    (kernel.mapCore Core.leaveKernel).resumed = none := by
  simp [resumed, mapCore]

theorem unread_of_mode
    (unread : after.core.inKernel = true → ¬Reads (after.top after.core.current)) :
    Unread after.input after.resumed := by
  intro t switched
  unfold Kernel.resumed at switched
  split at switched
  · rename_i inKernel
    cases switched
    exact unread inKernel
  · cases switched

theorem waits_unread (disciplined : Disciplined kernel) (suspended : Suspended kernel)
    (notIdle : kernel.core.current ≠ kernel.core.idleTask) {queues : Sequences Queue TaskId}
    {frames : List Frame} (orderly : Orderly ⟨kernel.core.setState kernel.core.current .blocked,
      queues⟩) (ready : queues.elements .readyqueue = kernel.queues.elements .readyqueue) :
    ¬Reads ((dispatch ⟨kernel.core.setState kernel.core.current .blocked, queues⟩ frames).top
      (dispatch ⟨kernel.core.setState kernel.core.current .blocked, queues⟩
        frames).core.current) := by
  have same : ∀ t, Kernel.top ⟨kernel.core.setState kernel.core.current .blocked, queues⟩ t =
      kernel.top t := by
    intro t
    simp [top]
  apply dispatch_not_reads orderly
  · intro t member notCurrent
    rw [same]
    exact suspended .readyqueue t (ready ▸ member)
  · refine .inr ⟨fun member => ?_, by simpa using notIdle⟩
    exact disciplined.currentUnlinked ⟨.readyqueue, ready ▸ (by simpa using member)⟩

theorem park_undisturbed (disciplined : Disciplined kernel) {queues : Sequences Queue TaskId}
    {state : ProcessState} {frames : List Frame} :
    Undisturbed kernel.input (Kernel.input (dispatch
      ⟨kernel.core.setState kernel.core.current state, queues⟩ frames)) := by
  intro t member
  have notCurrent : t ≠ kernel.core.current := fun same =>
    disciplined.currentUnlinked ⟨_, same ▸ member⟩
  show Kernel.top _ t = kernel.top t
  rw [dispatch_top, if_neg (by simpa using notCurrent)]
  simp [top]

theorem Core.Takes.input {core : Core} {address : Nat} {taken : List UInt8}
    (takes : kernel.core.Takes kernel.currentTask.dirPagesBaseAddr address taken core) :
    Kernel.input ⟨core, kernel.queues⟩ = { kernel.input with
      mm := core.mm
      ring := kernel.core.circbuff.pops taken.length } := by
  rw [takes.rest]
  rfl

theorem LoopOutcome.loopStep (disciplined : Disciplined kernel) (suspended : Suspended kernel)
    (notIdle : kernel.core.current ≠ kernel.core.idleTask) {buffer : Nat} {count i : Int}
    {outcome : SequenceKernel × Option Int} (loop : LoopOutcome kernel buffer count i outcome) :
    LoopStep kernel.input buffer count i (finishCall outcome).input
      (finishCall outcome).resumed := by
  cases loop with
  | finished taken core takes complete =>
      rw [finishCall_input, finishCall_resumed, takes.input]
      exact .finished _ taken takes.stored takes.oldest takes.enough complete rfl rfl rfl
        (fun _ _ => rfl) rfl
  | waits taken core takes more drained =>
      have view := takes.input
      have same : core.current = kernel.core.current := by rw [takes.rest]
      have kept := takes.withInput
      have moved : Disciplined ⟨core, kernel.queues⟩ := by
        rw [kept]
        exact disciplined.withInput _ _ _
      have stillSuspended : Suspended ⟨core, kernel.queues⟩ := by
        rw [kept]
        exact suspended.withInput _ _ _
      have stillNotIdle : core.current ≠ core.idleTask := by
        rw [kept]
        exact notIdle
      have orderly := moved.toOrderly.toFront (agreesBut_setState ⟨core, kernel.queues⟩ _ _)
        (@mayEnter_setState ⟨core, kernel.queues⟩ .keyboardqueue _ (fun _ => stillNotIdle)
          fun _ same => by cases same)
      show LoopStep kernel.input buffer count i (Kernel.input (Kernel.parkFront _ _ _))
        (Kernel.resumed (Kernel.parkFront _ _ _))
      refine .waits _ _ taken ?_ takes.oldest takes.enough more ?_ ?_ ?_ ?_ ?_ ?_ ?_
      · show _ = Except.ok (Kernel.parkFront _ _ _).core.mm
        rw [(parkFront_frame _ _ _).1]
        exact takes.stored
      · simpa [input, parkFront] using drained
      · have ring : core.circbuff = kernel.core.circbuff.pops taken.length := by rw [takes.rest]
        simpa [input, parkFront] using ring
      · show (Kernel.parkFront _ _ _).queues.elements .keyboardqueue = _
        rw [parkFront_elements moved _ Queue.noConfusion, if_pos rfl]
        exact congrArg (· :: _) same
      · have wanted : core.keyboardReadersCount = kernel.core.keyboardReadersCount := by
          rw [takes.rest]
        simpa [input, parkFront] using wanted
      · have undisturbed := @park_undisturbed _ moved
          (kernel.queues.toFront core.current .keyboardqueue) .blocked
          [.sysReadLoop buffer count (i + taken.length)]
        rw [view] at undisturbed
        exact undisturbed
      · show Kernel.top (Kernel.parkFront _ _ _) kernel.core.current = _
        rw [parkFront, dispatch_top, if_pos (by simpa using same.symm)]
        rfl
      · apply unread_of_mode
        intro _
        exact waits_unread moved stillSuspended stillNotIdle orderly
          ((Sequences.toFront_unlinked moved.currentUnlinked).trans (if_neg Queue.noConfusion))

theorem ReadCall.inputStep (disciplined : Disciplined kernel) (suspended : Suspended kernel)
    (notIdle : kernel.core.current ≠ kernel.core.idleTask) {fd : Int} {buffer : Nat}
    {count i : Int} {outcome : SequenceKernel × Option Int}
    (call : ReadCall kernel fd buffer count i outcome) :
    InputStep kernel.input (.read fd buffer count i) (finishCall outcome).input
      (finishCall outcome).resumed := by
  cases call with
  | refused error positive invalid =>
      apply (finishCall_quiet_same rfl rfl rfl fun _ => rfl : Quiet kernel _).step
      · exact Event.noConfusion
      · intro fd' buffer' count' i' same
        cases same
        exact invalid
      · exact fun _ => Event.noConfusion
      · exact Event.noConfusion
  | loops accepted alone outcome loop =>
      apply InputStep.calls _ _ _ _ _ _ accepted alone
      exact loop.loopStep (disciplined.requesting count) (suspended.requesting count) notIdle
  | queued accepted behind =>
      have requested := disciplined.requesting count
      have orderly := requested.toOrderly.toTail (agreesBut_setState (kernel.requesting count) _ _)
        (@mayEnter_setState (kernel.requesting count) .keyboardqueue _ (fun _ => notIdle)
          fun _ same => by cases same)
      show InputStep kernel.input _ (Kernel.input (Kernel.parkTail _ _ _))
        (Kernel.resumed (Kernel.parkTail _ _ _))
      refine .queues _ _ _ _ _ _ accepted behind ?_ ?_ ?_ ?_ ?_ ?_
      · simp [input, parkTail, Kernel.requesting]
      · show (Kernel.parkTail _ _ _).queues.elements .keyboardqueue = _
        rw [parkTail_elements requested _ Queue.noConfusion, if_pos rfl]
        rfl
      · simp [input, parkTail, Kernel.requesting]
      · exact @park_undisturbed _ requested _ .blocked [.sysReadQueued]
      · show Kernel.top (Kernel.parkTail _ _ _) kernel.core.current = _
        rw [parkTail, dispatch_top, if_pos (by simp [Kernel.requesting])]
        rfl
      · apply unread_of_mode
        intro _
        exact waits_unread requested (suspended.requesting count) notIdle orderly
          ((Sequences.toTail_unlinked requested.currentUnlinked).trans
            (if_neg Queue.noConfusion))

theorem KeyOutcome.inputStep (disciplined : Disciplined kernel)
    (notInKernel : kernel.core.inKernel = false) {llegit : UInt8}
    (accepted : KeyAccepted kernel llegit) (key : KeyOutcome kernel (charOf llegit) after) :
    InputStep kernel.input (.keyboard llegit) after.leaveUnlessSwitched.input
      after.leaveUnlessSwitched.resumed := by
  cases key with
  | buffered reader rest waiting incomplete =>
      rw [leaveUnlessSwitched, if_neg (by simp [Core.withInput, notInKernel]),
        leaveKernel_input, leaveKernel_resumed]
      exact .pushes llegit _ accepted reader rest waiting incomplete rfl rfl rfl fun _ _ => rfl
  | wakes reader rest waiting complete =>
      have member : reader ∈ kernel.queues.elements .keyboardqueue := by simp [waiting]
      have ready :=
        reader_disciplined disciplined member (kernel.core.circbuff.push (charOf llegit))
        (Function.update kernel.core.keyboardReadersCount reader
          (kernel.core.keyboardReadersCount reader -
            (kernel.core.circbuff.push (charOf llegit)).counter))
      have current := @woken_current kernel disciplined reader rest waiting
        (kernel.core.circbuff.push (charOf llegit))
        (Function.update kernel.core.keyboardReadersCount reader
          (kernel.core.keyboardReadersCount reader -
            (kernel.core.circbuff.push (charOf llegit)).counter)) [.keyboardRoutine]
      have waiting' := @parkTail_elements _ .readyqueue ready [.keyboardRoutine] .keyboardqueue
        Queue.noConfusion
      have stays : ∀ {moved : SequenceKernel},
          (moved.parkTail .readyqueue [.keyboardRoutine]).leaveUnlessSwitched =
            moved.parkTail .readyqueue [.keyboardRoutine] := by
        intro moved
        rw [parkTail, leaveUnlessSwitched_dispatch]
      rw [stays]
      have switched : Kernel.resumed (Kernel.parkTail
          ⟨(kernel.core.withInput kernel.core.mm.ram (kernel.core.circbuff.push (charOf llegit))
            (Function.update kernel.core.keyboardReadersCount reader
              (kernel.core.keyboardReadersCount reader -
                (kernel.core.circbuff.push (charOf llegit)).counter))).setState reader .ready,
            kernel.queues.toFront reader .readyqueue⟩ .readyqueue [.keyboardRoutine]) =
          some reader := by
        rw [resumed, if_pos (by simp), current]
      rw [switched]
      refine @InputStep.wakes kernel.input llegit _ accepted reader rest waiting complete
        ?_ ?_ ?_ ?_
      · simp [input, parkTail, Core.withInput]
      · refine waiting'.trans ?_
        rw [if_neg Queue.noConfusion]
        show (Sequences.elements (kernel.queues.toFront reader .readyqueue) .keyboardqueue) = rest
        simp [Sequences.toFront, waiting]
      · simp [input, parkTail, Core.withInput]
      · intro t inQueue
        have notCurrent : t ≠ kernel.core.current := fun same =>
          disciplined.currentUnlinked ⟨_, same ▸ inQueue⟩
        show Kernel.top (Kernel.parkTail _ _ _) t = kernel.top t
        rw [parkTail, dispatch_top, if_neg (by simpa [Core.withInput] using notCurrent)]
        simp [top, Core.withInput]

theorem ResumeOutcome.inputStep (disciplined : Disciplined kernel) (suspended : Suspended kernel)
    (notInKernel : kernel.core.inKernel = false) (resumed : ResumeOutcome kernel after) :
    InputStep kernel.input .resume after.input after.resumed := by
  have quietly : ∀ {frame}, topFrame kernel.currentTask.kernelEsp = some frame →
      (∀ buffer count i, frame ≠ .sysReadLoop buffer count i) → Quiet kernel after →
      after.core.inKernel = false ∧ after.core.current = kernel.core.current →
      InputStep kernel.input .resume after.input after.resumed := by
    intro frame top notLoop quiet returns
    apply quiet.step
    · intro _ buffer count i loop
      exact notLoop buffer count i (Option.some.inj (top.symm.trans loop))
    · exact fun _ _ _ _ => Event.noConfusion
    · exact fun _ => Event.noConfusion
    · exact fun _ => returns
  cases resumed with
  | idles top =>
      apply (Quiet.refl notInKernel).step
      · intro _ buffer count i loop
        cases top _ loop
      · exact fun _ _ _ _ => Event.noConfusion
      · exact fun _ => Event.noConfusion
      · exact fun _ => ⟨notInKernel, rfl⟩
  | interrupt frame top kind =>
      apply quietly top
      · rintro buffer count i rfl
        rcases kind with isKey | isClock <;> simp at *
      · exact .returns kernel (by simp [mapCore]) (by simp [mapCore]) rfl (by simp [mapCore])
          (by simp) rfl rfl rfl fun _ _ => rfl
      · simp [mapCore]
  | returns frame top kind =>
      apply quietly top
      · rintro buffer count i rfl
        rcases kind with isFork | isQueued | isExit <;> simp at *
      · exact finishCall_quiet_same rfl rfl rfl fun _ => rfl
      · simp [finishCall, mapCore]
  | waited top =>
      apply quietly top
      · exact fun _ _ _ => Frame.noConfusion
      · exact finishCall_quiet_same (by simp) (by simp) rfl (by simp)
      · simp [finishCall, mapCore]
  | reads buffer count i top outcome loop =>
      have notIdle : kernel.core.current ≠ kernel.core.idleTask := by
        intro same
        have frames := topFrame_mem top
        rw [currentTask, same] at frames
        exact disciplined.idleStack _ frames
      exact .reads buffer count i _ _ top (loop.loopStep disciplined suspended notIdle)

theorem Effect.inputStep (disciplined : Disciplined kernel) (suspended : Suspended kernel)
    (notInKernel : kernel.core.inKernel = false) {event : Event}
    (notIdle : event ≠ .resume → event.IsInterrupt = false →
      kernel.core.current ≠ kernel.core.idleTask)
    (effect : Effect kernel event after) :
    InputStep kernel.input event after.input after.resumed := by
  have calls : ∀ {called : SequenceKernel}, Quiet kernel called → event ≠ .resume →
      event.IsInterrupt = false → (∀ fd buffer count i, event ≠ .read fd buffer count i) →
      InputStep kernel.input event called.input called.resumed :=
    fun quiet => quiet.call
  cases effect with
  | resume outcome => exact outcome.inputStep disciplined suspended notInKernel
  | clock outcome =>
      apply (outcome.quiet disciplined suspended notInKernel).step
      · exact Event.noConfusion
      · exact fun _ _ _ _ => Event.noConfusion
      · exact fun _ => Event.noConfusion
      · exact Event.noConfusion
  | ignored llegit refused =>
      rw [leaveKernel_input, leaveKernel_resumed]
      refine .quiet _ _ _ rfl rfl rfl (fun _ _ => rfl) (fun _ same => by cases same)
        Event.noConfusion (fun _ _ _ _ => Event.noConfusion) ?_ Event.noConfusion
      intro other same
      cases same
      exact refused
  | keyboard llegit accepted outcome => exact outcome.inputStep disciplined notInKernel accepted
  | getpid result =>
      exact calls (finishCall_quiet_same rfl rfl rfl fun _ => rfl) Event.noConfusion rfl
        fun _ _ _ _ => Event.noConfusion
  | gettime result =>
      exact calls (finishCall_quiet_same rfl rfl rfl fun _ => rfl) Event.noConfusion rfl
        fun _ _ _ _ => Event.noConfusion
  | fork outcome =>
      exact calls (outcome.quiet disciplined) Event.noConfusion rfl
        fun _ _ _ _ => Event.noConfusion
  | clone function stack outcome =>
      exact calls (outcome.quiet disciplined) Event.noConfusion rfl
        fun _ _ _ _ => Event.noConfusion
  | exit outcome =>
      exact calls (outcome.quiet disciplined suspended (notIdle Event.noConfusion rfl))
        Event.noConfusion rfl fun _ _ _ _ => Event.noConfusion
  | sbrk amount outcome =>
      apply calls _ Event.noConfusion rfl fun _ _ _ _ => Event.noConfusion
      cases outcome <;> exact finishCall_quiet_same rfl rfl rfl fun _ => rfl
  | semInit nSem value outcome =>
      exact calls outcome.quiet Event.noConfusion rfl fun _ _ _ _ => Event.noConfusion
  | semWait nSem outcome =>
      exact calls (outcome.quiet disciplined suspended (notIdle Event.noConfusion rfl))
        Event.noConfusion rfl fun _ _ _ _ => Event.noConfusion
  | semSignal nSem outcome =>
      exact calls (outcome.quiet disciplined) Event.noConfusion rfl
        fun _ _ _ _ => Event.noConfusion
  | semDestroy nSem outcome =>
      exact calls outcome.quiet Event.noConfusion rfl fun _ _ _ _ => Event.noConfusion
  | read fd buffer count i call =>
      exact call.inputStep disciplined suspended (notIdle Event.noConfusion rfl)
  | write fd buffer size result =>
      exact calls (finishCall_quiet_same rfl rfl rfl fun _ => rfl) Event.noConfusion rfl
        fun _ _ _ _ => Event.noConfusion
  | getStats pid st told =>
      exact calls told.quiet Event.noConfusion rfl fun _ _ _ _ => Event.noConfusion
  | niSyscall =>
      exact calls (finishCall_quiet_same rfl rfl rfl fun _ => rfl) Event.noConfusion rfl
        fun _ _ _ _ => Event.noConfusion

end Effects

theorem Entry.input {before : SequenceKernel} {core : Core} {event : Event}
    (entry : Entry event before.core core) :
    Kernel.input ⟨core, before.queues⟩ = before.input := by
  have tops : Kernel.top ⟨core, before.queues⟩ = before.top := by
    funext t
    rw [top, entry.task]
    rfl
  have directory : (Kernel.currentTask ⟨core, before.queues⟩).dirPagesBaseAddr =
      before.currentTask.dirPagesBaseAddr := by
    show (core.task core.current).dirPagesBaseAddr = _
    rw [entry.current, entry.task]
    rfl
  simp only [Kernel.input, tops, directory, entry.current, entry.mm, entry.circbuff,
    entry.keyboardReadersCount]

theorem step_input {machine : Machine} {before after : SequenceKernel} {event : Event}
    (disciplined : Disciplined before) (suspended : Suspended before)
    (step : (checkedZeos machine).step before event after) :
    InputStep before.input event after.input after.resumed := by
  rcases step_effect disciplined step with ⟨core, entry, entered, notIdle, effect⟩
  rw [← entry.input]
  exact effect.inputStep entered (suspended.entered entry) entry.inKernel notIdle

end Zeos
