import Zeos.Foundation.WaitingLine
import Zeos.Processes

/-! # Scheduling

Each step as a step of the readyqueue and the processor: who joins the queue, who
is taken from it, and what becomes of the ticks that are left.
-/

namespace Zeos

open Foundation Kernel

def Kernel.ready (kernel : SequenceKernel) : List TaskId := kernel.queues.elements .readyqueue

/-- How `sched_next_rr` leaves the processor, and the stack of the task it left,
when `queue` is ready. -/
inductive SwitchedFrom (core : Core) (queue : List TaskId) (after : SequenceKernel) : Prop
  | toNext (next : TaskId) (rest : List TaskId) (contents : queue = next :: rest)
      (current : after.core.current = next) (ready : after.ready = rest)
      (leftTicks : after.core.leftTicks = (after.core.task next).quantum)
      (stack : ∃ frames, (after.core.task core.current).kernelEsp = .schedNextRr :: frames)
  | toIdle (empty : queue = []) (current : after.core.current = core.idleTask)
      (ready : after.ready = []) (leftTicks : after.core.leftTicks = core.leftTicks)
      (stack : ∀ frames, (after.core.task core.current).kernelEsp ≠ .schedNextRr :: frames)

/-- The key press completes the request of `reader`, or fills the ring. -/
structure WakesReader (kernel : SequenceKernel) (llegit : UInt8) (reader : TaskId) : Prop where
  accepted : KeyAccepted kernel llegit
  first : (kernel.queues.elements .keyboardqueue).head? = some reader
  complete : (kernel.core.circbuff.push (charOf llegit)).full = true ∨
    ((kernel.core.circbuff.push (charOf llegit)).counter : Int) =
      kernel.core.keyboardReadersCount reader

/-- What a step does to the readyqueue. Only a key press puts a task in front,
and it is dispatched at once. -/
inductive SchedStep (kernel : SequenceKernel) : Event → SequenceKernel → Prop
  | stays (event : Event) (after : SequenceKernel) (joined : List TaskId)
      (idleTask : after.core.idleTask = kernel.core.idleTask)
      (mode : after.core.inKernel = false) (current : after.core.current = kernel.core.current)
      (leftTicks : after.core.leftTicks = kernel.core.leftTicks)
      (ready : after.ready = kernel.ready ++ joined)
      (notIdle : kernel.core.idleTask ∉ joined)
      (tick : event = .clock → kernel.core.leftTicks ≠ 0)
      (keys : ∀ llegit, event = .keyboard llegit → (∀ reader, ¬WakesReader kernel llegit reader) ∧
        after.queues.elements .keyboardqueue = kernel.queues.elements .keyboardqueue) :
      SchedStep kernel event after
  | switches (event : Event) (after : SequenceKernel) (joined : List TaskId)
      (idleTask : after.core.idleTask = kernel.core.idleTask)
      (mode : after.core.inKernel = true)
      (switched : SwitchedFrom kernel.core (kernel.ready ++ joined) after)
      (notIdle : kernel.core.idleTask ∉ joined)
      (tick : event = .clock → kernel.core.leftTicks = 0 ∧
        joined = if kernel.core.current = kernel.core.idleTask then []
          else [kernel.core.current])
      (notKey : ∀ llegit, event ≠ .keyboard llegit) : SchedStep kernel event after
  | wakes (llegit : UInt8) (reader : TaskId) (after : SequenceKernel)
      (idleTask : after.core.idleTask = kernel.core.idleTask)
      (mode : after.core.inKernel = true)
      (switched : SwitchedFrom kernel.core (reader :: kernel.ready ++ [kernel.core.current]) after)
      (woken : WakesReader kernel llegit reader)
      (keyboardqueue : kernel.queues.elements .keyboardqueue =
        reader :: after.queues.elements .keyboardqueue) :
      SchedStep kernel (.keyboard llegit) after

/-! ## The steps of the kernel -/

section Effects

variable {kernel after : SequenceKernel}

theorem SwitchedFrom.congr {core other : Core} {queue : List TaskId}
    (switched : SwitchedFrom other queue after) (current : other.current = core.current)
    (idleTask : other.idleTask = core.idleTask) (leftTicks : other.leftTicks = core.leftTicks) :
    SwitchedFrom core queue after := by
  cases switched with
  | toNext next rest contents now ready ticks stack =>
      exact .toNext next rest contents now ready ticks (by rwa [← current])
  | toIdle empty now ready ticks stack =>
      exact .toIdle empty (now.trans idleTask) ready (ticks.trans leftTicks) (by rwa [← current])

theorem dispatch_switched (kernel : SequenceKernel) {frames : List Frame}
    (bare : ∀ rest, frames ≠ .schedNextRr :: rest) :
    SwitchedFrom kernel.core kernel.ready (kernel.dispatch frames) := by
  have current := dispatch_current kernel frames
  have ready := dispatch_readyqueue kernel frames
  have stack := dispatch_kernelEsp kernel frames kernel.core.current
  rw [if_pos rfl] at stack
  cases contents : kernel.queues.elements .readyqueue with
  | nil =>
      rw [contents] at current ready stack
      rw [if_pos rfl] at stack
      refine .toIdle contents current ready ?_ (fun rest equal => bare rest (stack ▸ equal))
      simp [dispatch, contents, Core.taskSwitch]
  | cons next rest =>
      rw [contents] at current ready stack
      rw [if_neg (List.cons_ne_nil next rest)] at stack
      refine .toNext next rest contents current ready ?_ ⟨frames, stack⟩
      simp [dispatch, contents, Core.switchTo]

/-- Tasks may have become ready at the tail, and nothing else has been scheduled. -/
structure Joins (kernel after : SequenceKernel) (joined : List TaskId) : Prop where
  idleTask : after.core.idleTask = kernel.core.idleTask
  current : after.core.current = kernel.core.current
  leftTicks : after.core.leftTicks = kernel.core.leftTicks
  ready : after.ready = kernel.ready ++ joined
  keyboardqueue : after.queues.elements .keyboardqueue = kernel.queues.elements .keyboardqueue
  notIdle : kernel.core.idleTask ∉ joined

theorem Joins.nothing (idleTask : after.core.idleTask = kernel.core.idleTask)
    (current : after.core.current = kernel.core.current)
    (leftTicks : after.core.leftTicks = kernel.core.leftTicks)
    (queues : after.queues = kernel.queues) : Joins kernel after [] :=
  ⟨idleTask, current, leftTicks, by simp [Kernel.ready, queues], by rw [queues],
    List.not_mem_nil⟩

theorem Joins.refl (kernel : SequenceKernel) : Joins kernel kernel [] := .nothing rfl rfl rfl rfl

theorem Joins.leaves {joined : List TaskId} (joins : Joins kernel after joined)
    {left : SequenceKernel} {event : Event} (leaves : Joins after left [])
    (mode : left.core.inKernel = false) (tick : event = .clock → kernel.core.leftTicks ≠ 0)
    (keys : ∀ llegit, event = .keyboard llegit → ∀ reader, ¬WakesReader kernel llegit reader) :
    SchedStep kernel event left := by
  apply SchedStep.stays event left joined
  · exact leaves.idleTask.trans joins.idleTask
  · exact mode
  · exact leaves.current.trans joins.current
  · exact leaves.leftTicks.trans joins.leftTicks
  · rw [leaves.ready, joins.ready, List.append_nil]
  · exact joins.notIdle
  · exact tick
  · exact fun llegit same => ⟨keys llegit same, leaves.keyboardqueue.trans joins.keyboardqueue⟩

theorem finishCall_joins (kernel : SequenceKernel) (result : Int) :
    Joins kernel (finishCall (kernel, some result)) [] :=
  .nothing (by simp [finishCall, mapCore]) (by simp [finishCall, mapCore])
    (by simp [finishCall, mapCore]) rfl

theorem Joins.returns {joined : List TaskId} (joins : Joins kernel after joined) {event : Event}
    (notInterrupt : event.IsInterrupt = false) (result : Int) :
    SchedStep kernel event (finishCall (after, some result)) := by
  apply joins.leaves (finishCall_joins after result)
  · simp [finishCall, mapCore]
  · intro isClock
    subst isClock
    cases notInterrupt
  · intro llegit isKey
    subst isKey
    cases notInterrupt

theorem toTail_joins {core : Core} (disciplined : Disciplined kernel) {t : TaskId} {queue : Queue}
    (member : t ∈ kernel.queues.elements queue) (notReady : queue ≠ .readyqueue)
    (notKeyboard : queue ≠ .keyboardqueue) (idleTask : core.idleTask = kernel.core.idleTask)
    (current : core.current = kernel.core.current)
    (leftTicks : core.leftTicks = kernel.core.leftTicks) :
    Joins kernel ⟨core, kernel.queues.toTail t .readyqueue⟩ [t] where
  idleTask := idleTask
  current := current
  leftTicks := leftTicks
  ready := by
    have absent := disciplined.placed.not_elsewhere member notReady.symm
    simp [Kernel.ready, Sequences.toTail, List.erase_of_not_mem absent]
  keyboardqueue := Sequences.toTail_elements_of_ne Queue.noConfusion
    (disciplined.placed.not_elsewhere member notKeyboard.symm)
  notIdle := by
    intro isIdle
    rw [List.mem_singleton] at isIdle
    rw [← isIdle] at member
    exact notReady (disciplined.idle_linked member)

theorem ForkOutcome.joins (disciplined : Disciplined kernel) {outcome : SequenceKernel × Int}
    (forked : ForkOutcome kernel outcome) : ∃ joined, Joins kernel outcome.1 joined := by
  cases forked with
  | full empty => exact ⟨[], .refl kernel⟩
  | noMemory child rest free mm outOfFrames =>
      have member : child ∈ kernel.queues.elements .freequeue := by simp [free]
      have elsewhere : ∀ {queue}, queue ≠ .freequeue →
          (kernel.queues.remove child).elements queue = kernel.queues.elements queue :=
        fun different => List.erase_of_not_mem (disciplined.placed.not_elsewhere member different)
      refine ⟨[], by simp [forkFailed], by simp [forkFailed], by simp [forkFailed], ?_,
        elsewhere Queue.noConfusion, List.not_mem_nil⟩
      rw [List.append_nil]
      exact elsewhere Queue.noConfusion
  | forked child rest free mm copied =>
      have member : child ∈ kernel.queues.elements .freequeue := by simp [free]
      exact ⟨[child], toTail_joins disciplined member Queue.noConfusion Queue.noConfusion
        (by simp) (by simp) (by simp)⟩

theorem CloneOutcome.joins (disciplined : Disciplined kernel) {function stack : Nat}
    {outcome : SequenceKernel × Int} (cloned : CloneOutcome kernel function stack outcome) :
    ∃ joined, Joins kernel outcome.1 joined := by
  cases cloned with
  | refused error negative => exact ⟨[], .refl kernel⟩
  | cloned child rest free =>
      have member : child ∈ kernel.queues.elements .freequeue := by simp [free]
      exact ⟨[child], toTail_joins disciplined member Queue.noConfusion Queue.noConfusion
        (by simp [Core.cloneTo]) (by simp [Core.cloneTo]) (by simp [Core.cloneTo])⟩

theorem SignalOutcome.joins (disciplined : Disciplined kernel) {nSem : Int}
    {outcome : SequenceKernel × Int} (signalled : SignalOutcome kernel nSem outcome) :
    ∃ joined, Joins kernel outcome.1 joined := by
  cases signalled with
  | refused unusable => exact ⟨[], .refl kernel⟩
  | counts sem index owned empty =>
      exact ⟨[], .nothing (by simp) (by simp) (by simp) rfl⟩
  | wakes sem index owned first rest waiting =>
      have member : first ∈ kernel.queues.elements (.blocked sem) := by simp [waiting]
      exact ⟨[first], toTail_joins disciplined member Queue.noConfusion Queue.noConfusion
        (by simp) (by simp) (by simp)⟩

theorem Woken.joins (disciplined : Disciplined kernel) {which : SemId → Prop}
    (woken : Woken which kernel after) : ∃ joined, Joins kernel after joined := by
  rcases woken.readyqueue with ⟨joined, ready, members⟩
  refine ⟨joined, by rw [woken.rest], by rw [woken.rest], by rw [woken.rest], ready,
    woken.keyboardqueue, fun isIdle => ?_⟩
  rcases (members _).mp isIdle with ⟨sem, -, member⟩
  have isReady := disciplined.idle_linked member
  cases isReady

theorem DestroyOutcome.joins (disciplined : Disciplined kernel) {nSem : Int}
    {outcome : SequenceKernel × Int} (destroyed : DestroyOutcome kernel nSem outcome) :
    ∃ joined, Joins kernel outcome.1 joined := by
  cases destroyed with
  | refused unusable => exact ⟨[], .refl kernel⟩
  | notOwner sem index owned other => exact ⟨[], .refl kernel⟩
  | destroyed sem index owned owner after woken orderly semArray => exact woken.joins disciplined

theorem InitOutcome.joins {nSem : Int} {value : Nat} {outcome : SequenceKernel × Int}
    (initialised : InitOutcome kernel nSem value outcome) : Joins kernel outcome.1 [] := by
  cases initialised with
  | refused index => exact .refl kernel
  | busy sem index owned => exact .refl kernel
  | initialised sem index unowned => exact .nothing (by simp) (by simp) (by simp) rfl

theorem SbrkOutcome.joins {amount : Int} {outcome : SequenceKernel × Int}
    (moved : SbrkOutcome kernel amount outcome) : Joins kernel outcome.1 [] := by
  cases moved <;> exact .nothing rfl rfl rfl rfl

theorem StatsOutcome.joins {pid : Int} {st : Nat} {outcome : SequenceKernel × Int}
    (told : StatsOutcome kernel pid st outcome) : Joins kernel outcome.1 [] := by
  cases told <;> exact .nothing rfl rfl rfl rfl

theorem blocks_switches {queues : Sequences Queue TaskId} {state : ProcessState}
    {frames : List Frame} (ready : queues.elements .readyqueue = kernel.ready)
    (bare : ∀ rest, frames ≠ .schedNextRr :: rest) {event : Event}
    (notInterrupt : event.IsInterrupt = false) :
    SchedStep kernel event (dispatch
      ⟨kernel.core.setState kernel.core.current state, queues⟩ frames) := by
  have switched := dispatch_switched
    ⟨kernel.core.setState kernel.core.current state, queues⟩ bare
  apply SchedStep.switches event _ []
  · simp
  · simp
  · rw [List.append_nil, ← ready]
    exact switched.congr (by simp) (by simp) (by simp)
  · exact List.not_mem_nil
  · intro isClock
    subst isClock
    cases notInterrupt
  · intro llegit isKey
    subst isKey
    cases notInterrupt

theorem parkTail_switches (disciplined : Disciplined kernel) {queue : Queue}
    {frames : List Frame} (notReady : Queue.readyqueue ≠ queue)
    (bare : ∀ rest, frames ≠ .schedNextRr :: rest) {event : Event}
    (notInterrupt : event.IsInterrupt = false) :
    SchedStep kernel event (kernel.parkTail queue frames) := by
  apply blocks_switches _ bare notInterrupt
  rw [Sequences.toTail_unlinked disciplined.currentUnlinked, if_neg notReady]
  rfl

theorem parkFront_switches (disciplined : Disciplined kernel) {queue : Queue}
    {frames : List Frame} (notReady : Queue.readyqueue ≠ queue)
    (bare : ∀ rest, frames ≠ .schedNextRr :: rest) {event : Event}
    (notInterrupt : event.IsInterrupt = false) :
    SchedStep kernel event (kernel.parkFront queue frames) := by
  apply blocks_switches _ bare notInterrupt
  rw [Sequences.toFront_unlinked disciplined.currentUnlinked, if_neg notReady]
  rfl

theorem preempted_switched (disciplined : Disciplined kernel) {frames : List Frame}
    (bare : ∀ rest, frames ≠ .schedNextRr :: rest) :
    SwitchedFrom kernel.core (kernel.ready ++ [kernel.core.current])
      (kernel.parkTail .readyqueue frames) := by
  have switched := dispatch_switched ⟨kernel.core.setState kernel.core.current .ready,
    kernel.queues.toTail kernel.core.current .readyqueue⟩ bare
  have ready : (kernel.queues.toTail kernel.core.current .readyqueue).elements .readyqueue =
      kernel.ready ++ [kernel.core.current] := by
    rw [Sequences.toTail_unlinked disciplined.currentUnlinked, if_pos rfl]
    rfl
  rw [← ready]
  exact switched.congr (by simp) (by simp) (by simp)

theorem WaitOutcome.scheduled (disciplined : Disciplined kernel) {nSem : Int}
    {outcome : SequenceKernel × Option Int} (waited : WaitOutcome kernel nSem outcome) :
    SchedStep kernel (.semWait nSem) (finishCall outcome) := by
  cases waited with
  | refused unusable => exact (Joins.refl kernel).returns rfl _
  | passes sem index owned positive =>
      refine Joins.returns (?_ : Joins _ _ []) rfl _
      exact .nothing (by simp) (by simp) (by simp) rfl
  | blocks sem index owned exhausted =>
      exact parkTail_switches disciplined Queue.noConfusion
        (by simp) rfl

theorem ExitOutcome.scheduled (disciplined : Disciplined kernel)
    (exited : ExitOutcome kernel after) : SchedStep kernel .exit after := by
  cases exited with
  | exited released destroyed mm freed =>
      rcases destroyed.woken.joins disciplined with ⟨joined, joins⟩
      have unlinked := destroyed.woken.current_unlinked disciplined
      have switched := dispatch_switched (released.freed mm)
        (show ∀ rest, [Frame.sysExit] ≠ .schedNextRr :: rest by simp)
      have ready : (released.freed mm).ready = kernel.ready ++ joined := by
        rw [← joins.ready]
        exact Sequences.toTail_unlinked unlinked
      rw [ready] at switched
      apply SchedStep.switches .exit _ joined
      · rw [← joins.idleTask]
        simp
      · simp
      · apply switched.congr
        · rw [← joins.current]
          simp [Kernel.freed]
        · rw [← joins.idleTask]
          simp [Kernel.freed]
        · rw [← joins.leftTicks]
          simp [Kernel.freed]
      · exact joins.notIdle
      · exact Event.noConfusion
      · exact fun _ => Event.noConfusion

theorem withInput_joins (ram : Nat → Nat → UInt8) (circbuff : Circbuff)
    (readers : TaskId → Int) :
    Joins kernel ⟨kernel.core.withInput ram circbuff readers, kernel.queues⟩ [] :=
  .nothing rfl rfl rfl rfl

/-- A step from an input state is a step from the state without that input, unless
it is a key press. -/
theorem SchedStep.ofWithInput {ram : Nat → Nat → UInt8} {circbuff : Circbuff}
    {readers : TaskId → Int} {event : Event} (notKey : ∀ llegit, event ≠ .keyboard llegit)
    (step : SchedStep ⟨kernel.core.withInput ram circbuff readers, kernel.queues⟩ event after) :
    SchedStep kernel event after := by
  cases step with
  | stays _ _ joined idleTask mode current leftTicks ready notIdle tick keys =>
      exact .stays event after joined idleTask mode current leftTicks ready notIdle tick
        fun llegit isKey => absurd isKey (notKey llegit)
  | switches _ _ joined idleTask mode switched notIdle tick notKey =>
      exact .switches event after joined idleTask mode (switched.congr rfl rfl rfl) notIdle tick
        notKey
  | wakes llegit => exact absurd rfl (notKey llegit)

theorem ReadOutcome.scheduled (disciplined : Disciplined kernel) {event : Event}
    (notInterrupt : event.IsInterrupt = false) {outcome : SequenceKernel × Option Int}
    (read : ReadOutcome kernel outcome) : SchedStep kernel event (finishCall outcome) := by
  have notKey : ∀ llegit, event ≠ .keyboard llegit := by
    intro llegit isKey
    subst isKey
    cases notInterrupt
  cases read with
  | finished ram circbuff readers result =>
      exact (withInput_joins ram circbuff readers).returns notInterrupt result
  | waits ram circbuff readers buffer count i =>
      apply SchedStep.ofWithInput notKey
      exact parkFront_switches (disciplined.withInput ram circbuff readers) Queue.noConfusion
        (by simp) notInterrupt
  | queued ram circbuff readers =>
      apply SchedStep.ofWithInput notKey
      exact parkTail_switches (disciplined.withInput ram circbuff readers) Queue.noConfusion
        (by simp) notInterrupt

theorem leaveKernel_joins (kernel : SequenceKernel) :
    Joins kernel (kernel.mapCore Core.leaveKernel) [] :=
  .nothing (by simp [mapCore]) (by simp [mapCore]) (by simp [mapCore]) rfl

theorem ResumeOutcome.scheduled (disciplined : Disciplined kernel)
    (mode : kernel.core.inKernel = false) (resumed : ResumeOutcome kernel after) :
    SchedStep kernel .resume after := by
  cases resumed with
  | idles top => exact (Joins.refl _).leaves (.refl _) mode Event.noConfusion fun _ =>
      Event.noConfusion
  | interrupt frame top kind =>
      exact (Joins.refl _).leaves (leaveKernel_joins _) (by simp [mapCore]) Event.noConfusion
        fun _ => Event.noConfusion
  | returns frame top kind => exact (Joins.refl _).returns rfl _
  | waited top =>
      refine Joins.returns (?_ : Joins _ _ []) rfl _
      exact .nothing (by simp) (by simp) (by simp) rfl
  | reads buffer count i top outcome loop => exact loop.coarse.scheduled disciplined rfl

theorem ClockOutcome.scheduled (disciplined : Disciplined kernel)
    (mode : kernel.core.inKernel = false) (clock : ClockOutcome kernel after) :
    SchedStep kernel .clock after.leaveUnlessSwitched := by
  cases clock with
  | continues left =>
      rw [leaveUnlessSwitched, if_neg (by simp [mode])]
      exact (Joins.refl _).leaves (leaveKernel_joins _) (by simp [mapCore]) (fun _ => left)
        fun _ => Event.noConfusion
  | idles expired idle =>
      rw [leaveUnlessSwitched_dispatch]
      apply SchedStep.switches .clock _ []
      · simp
      · simp
      · rw [List.append_nil]
        exact dispatch_switched kernel (by simp)
      · exact List.not_mem_nil
      · intro _
        rw [if_pos idle]
        exact ⟨expired, rfl⟩
      · exact fun _ => Event.noConfusion
  | preempts expired notIdle =>
      rw [parkTail, leaveUnlessSwitched_dispatch]
      apply SchedStep.switches .clock _ [kernel.core.current]
      · simp
      · simp
      · exact preempted_switched disciplined (by simp)
      · simpa using fun same => notIdle (Eq.symm same)
      · intro _
        rw [if_neg notIdle]
        exact ⟨expired, rfl⟩
      · exact fun _ => Event.noConfusion

theorem KeyOutcome.scheduled (disciplined : Disciplined kernel)
    (mode : kernel.core.inKernel = false) {llegit : UInt8} (accepted : KeyAccepted kernel llegit)
    (key : KeyOutcome kernel (charOf llegit) after) :
    SchedStep kernel (.keyboard llegit) after.leaveUnlessSwitched := by
  cases key with
  | buffered reader rest waiting incomplete =>
      rw [leaveUnlessSwitched, if_neg (by simp [Core.withInput, mode])]
      apply (withInput_joins _ _ _).leaves (leaveKernel_joins _) (by simp [mapCore])
        Event.noConfusion
      intro other same first woken
      cases same
      have isReader : first = reader := by
        have head := woken.first
        rw [waiting] at head
        exact (Option.some.inj head).symm
      subst isReader
      exact incomplete woken.complete
  | wakes reader rest waiting complete =>
      have member : reader ∈ kernel.queues.elements .keyboardqueue := by simp [waiting]
      have ready :=
        reader_disciplined disciplined member (kernel.core.circbuff.push (charOf llegit))
        (Function.update kernel.core.keyboardReadersCount reader
          (kernel.core.keyboardReadersCount reader -
            (kernel.core.circbuff.push (charOf llegit)).counter))
      have apart : reader ∉ kernel.queues.elements .readyqueue :=
        disciplined.placed.not_elsewhere member Queue.noConfusion
      have front : Sequences.elements (kernel.queues.toFront reader .readyqueue) .readyqueue =
          reader :: kernel.ready := by
        simp [Sequences.toFront, List.erase_of_not_mem apart, Kernel.ready]
      have switched := preempted_switched ready
        (show ∀ rest, [Frame.keyboardRoutine] ≠ .schedNextRr :: rest by simp)
      have remaining := @parkTail_elements _ .readyqueue ready [Frame.keyboardRoutine]
        .keyboardqueue Queue.noConfusion
      rw [parkTail, leaveUnlessSwitched_dispatch]
      apply SchedStep.wakes llegit reader
      · simp [Core.withInput]
      · simp
      · have contents : Kernel.ready ⟨(kernel.core.withInput kernel.core.mm.ram
            (kernel.core.circbuff.push (charOf llegit)) (Function.update
              kernel.core.keyboardReadersCount reader (kernel.core.keyboardReadersCount reader -
                (kernel.core.circbuff.push (charOf llegit)).counter))).setState reader .ready,
            kernel.queues.toFront reader .readyqueue⟩ = reader :: kernel.ready := front
        rw [contents] at switched
        exact switched.congr rfl rfl rfl
      · exact ⟨accepted, by rw [waiting]; rfl, complete⟩
      · rw [waiting]
        apply congrArg
        refine Eq.symm (remaining.trans ?_)
        rw [if_neg Queue.noConfusion]
        show (Sequences.elements (kernel.queues.toFront reader .readyqueue) .keyboardqueue) = rest
        simp [Sequences.toFront, waiting]

theorem Effect.scheduled (disciplined : Disciplined kernel) (mode : kernel.core.inKernel = false)
    {event : Event} (effect : Effect kernel event after) : SchedStep kernel event after := by
  cases effect with
  | resume outcome => exact outcome.scheduled disciplined mode
  | clock outcome => exact outcome.scheduled disciplined mode
  | ignored llegit refused =>
      exact (Joins.refl _).leaves (leaveKernel_joins _) (by simp [mapCore]) Event.noConfusion
        fun other same reader woken => by
          cases same
          exact refused woken.accepted
  | keyboard llegit accepted outcome => exact outcome.scheduled disciplined mode accepted
  | getpid result => exact (Joins.refl _).returns rfl _
  | gettime result => exact (Joins.refl _).returns rfl _
  | fork outcome =>
      rcases outcome.joins disciplined with ⟨joined, joins⟩
      exact joins.returns rfl _
  | clone function stack outcome =>
      rcases outcome.joins disciplined with ⟨joined, joins⟩
      exact joins.returns rfl _
  | exit outcome => exact outcome.scheduled disciplined
  | sbrk amount outcome => exact outcome.joins.returns rfl _
  | semInit nSem value outcome => exact outcome.joins.returns rfl _
  | semWait nSem outcome => exact outcome.scheduled disciplined
  | semSignal nSem outcome =>
      rcases outcome.joins disciplined with ⟨joined, joins⟩
      exact joins.returns rfl _
  | semDestroy nSem outcome =>
      rcases outcome.joins disciplined with ⟨joined, joins⟩
      exact joins.returns rfl _
  | read fd buffer count i call => exact call.coarse.scheduled disciplined rfl
  | write fd buffer size result => exact (Joins.refl _).returns rfl _
  | getStats pid st told => exact told.joins.returns rfl _
  | niSyscall => exact (Joins.refl _).returns rfl _

end Effects

end Zeos
