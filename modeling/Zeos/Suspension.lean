import Zeos.Processes

/-! # Suspended tasks

Where a task waits tells which routine it is in. The stacks of others are never
written, so this is an invariant of runs.
-/

namespace Zeos

open Foundation Kernel

def Reads (top : Option Frame) : Prop :=
  top = some .sysReadQueued ∨ ∃ buffer count i, top = some (.sysReadLoop buffer count i)

/-- The routines that a task can be in, by the queue that it is in. A reader in
its loop still wants characters. -/
def Fits : Queue → Option Frame → Prop
  | .freequeue, _ => True
  | .readyqueue, top => ¬Reads top
  | .keyboardqueue, top => top = some .sysReadQueued ∨
      ∃ buffer count i, top = some (.sysReadLoop buffer count i) ∧ i < count
  | .blocked _, top => top = some .sysSemWait

def Kernel.top (kernel : SequenceKernel) (t : TaskId) : Option Frame :=
  topFrame (kernel.core.task t).kernelEsp

def Suspended (kernel : SequenceKernel) : Prop :=
  ∀ queue t, t ∈ kernel.queues.elements queue → Fits queue (kernel.top t)

theorem not_reads_of_interrupt {frames : List Frame}
    (interrupt : ∀ frame ∈ frames, frame.OfInterrupt) : ¬Reads (topFrame frames) := by
  rintro (queued | ⟨buffer, count, i, loop⟩)
  · exact interrupt _ (topFrame_mem queued)
  · exact interrupt _ (topFrame_mem loop)

section Effects

variable {kernel after : SequenceKernel}

theorem dispatch_top (kernel : SequenceKernel) (frames : List Frame) (t : TaskId) :
    (kernel.dispatch frames).top t =
      if t = kernel.core.current then topFrame frames else kernel.top t := by
  rw [top, dispatch_kernelEsp]
  by_cases isCurrent : t = kernel.core.current
  · rw [if_pos isCurrent, if_pos isCurrent]
    split <;> rfl
  · rw [if_neg isCurrent, if_neg isCurrent]
    rfl

theorem dispatch_mem {kernel : SequenceKernel} {frames : List Frame} {queue : Queue}
    {t : TaskId} (placed : Placed kernel.states kernel.queues)
    (member : t ∈ (kernel.dispatch frames).queues.elements queue) :
    t ∈ kernel.queues.elements queue := by
  by_cases isReady : queue = .readyqueue
  · subst isReady
    rw [dispatch_readyqueue] at member
    exact List.mem_of_mem_tail member
  · rwa [dispatch_elements placed frames isReady] at member

theorem dispatch_not_reads (orderly : Orderly kernel) {frames : List Frame}
    (suspended : ∀ t, t ∈ kernel.queues.elements .readyqueue → t ≠ kernel.core.current →
      ¬Reads (kernel.top t))
    (here : ¬Reads (topFrame frames) ∨ kernel.core.current ∉ kernel.queues.elements .readyqueue ∧
      kernel.core.current ≠ kernel.core.idleTask) :
    ¬Reads ((kernel.dispatch frames).top (kernel.dispatch frames).core.current) := by
  rw [dispatch_top]
  by_cases isCurrent : (kernel.dispatch frames).core.current = kernel.core.current
  · rw [if_pos isCurrent]
    rcases here with fine | ⟨notReady, notIdle⟩
    · exact fine
    · rw [dispatch_current] at isCurrent
      cases contents : kernel.queues.elements .readyqueue with
      | nil =>
          rw [contents] at isCurrent
          exact absurd isCurrent.symm notIdle
      | cons next rest =>
          rw [contents] at isCurrent notReady
          exact absurd (by rw [← isCurrent]; exact List.mem_cons_self) notReady
  · rw [if_neg isCurrent]
    rw [dispatch_current] at isCurrent ⊢
    cases contents : kernel.queues.elements .readyqueue with
    | nil => exact not_reads_of_interrupt orderly.idleStack
    | cons next rest =>
        rw [contents] at isCurrent
        exact suspended next (by simp [contents]) isCurrent

theorem Suspended.congr (suspended : Suspended kernel)
    (members : ∀ queue t, t ∈ after.queues.elements queue → t ∈ kernel.queues.elements queue)
    (tops : ∀ t, after.top t = kernel.top t) : Suspended after := by
  intro queue t member
  rw [tops]
  exact suspended queue t (members queue t member)

theorem dispatch_suspended (placed : Placed kernel.states kernel.queues) {frames : List Frame}
    (others : ∀ queue t, t ∈ (kernel.dispatch frames).queues.elements queue →
      t ≠ kernel.core.current → Fits queue (kernel.top t))
    (here : ∀ queue, kernel.core.current ∈ kernel.queues.elements queue →
      Fits queue (topFrame frames)) : Suspended (kernel.dispatch frames) := by
  intro queue t member
  rw [dispatch_top]
  by_cases isCurrent : t = kernel.core.current
  · rw [if_pos isCurrent]
    exact here queue (isCurrent ▸ dispatch_mem placed member)
  · rw [if_neg isCurrent]
    exact others queue t member isCurrent

theorem park_suspended {queue : Queue} {state : ProcessState} {frames : List Frame}
    {queues : Sequences Queue TaskId} (unlinked : ¬kernel.queues.Linked kernel.core.current)
    (placed : Placed (Kernel.states ⟨kernel.core.setState kernel.core.current state, queues⟩)
      queues)
    (members : ∀ other t, t ∈ queues.elements other →
      other = queue ∧ t = kernel.core.current ∨ t ∈ kernel.queues.elements other)
    (others : ∀ other t, t ∈ (dispatch ⟨kernel.core.setState kernel.core.current state, queues⟩
        frames).queues.elements other → t ∈ kernel.queues.elements other →
      Fits other (kernel.top t))
    (fits : Fits queue (topFrame frames)) :
    Suspended (dispatch ⟨kernel.core.setState kernel.core.current state, queues⟩ frames) := by
  apply dispatch_suspended placed
  · intro other t member notCurrent
    have same : Kernel.top ⟨kernel.core.setState kernel.core.current state, queues⟩ t =
        kernel.top t := by
      simp [top]
    rw [same]
    apply others other t member
    rcases members other t (dispatch_mem placed member) with ⟨-, isCurrent⟩ | old
    · exact absurd isCurrent notCurrent
    · exact old
  · intro other member
    rcases members other _ member with ⟨same, -⟩ | old
    · rwa [same]
    · exact absurd ⟨other, old⟩ unlinked

theorem mem_toTail (unlinked : ¬kernel.queues.Linked kernel.core.current) {queue other : Queue}
    {t : TaskId}
    (member : t ∈ (kernel.queues.toTail kernel.core.current queue).elements other) :
    other = queue ∧ t = kernel.core.current ∨ t ∈ kernel.queues.elements other := by
  rw [Sequences.toTail_unlinked unlinked] at member
  by_cases same : other = queue
  · rw [if_pos same, List.mem_append, List.mem_singleton] at member
    rcases member with old | isCurrent
    · exact .inr (same ▸ old)
    · exact .inl ⟨same, isCurrent⟩
  · rw [if_neg same] at member
    exact .inr member

theorem mem_toFront (unlinked : ¬kernel.queues.Linked kernel.core.current) {queue other : Queue}
    {t : TaskId}
    (member : t ∈ (kernel.queues.toFront kernel.core.current queue).elements other) :
    other = queue ∧ t = kernel.core.current ∨ t ∈ kernel.queues.elements other := by
  rw [Sequences.toFront_unlinked unlinked] at member
  by_cases same : other = queue
  · rw [if_pos same, List.mem_cons] at member
    rcases member with isCurrent | old
    · exact .inl ⟨same, isCurrent⟩
    · exact .inr (same ▸ old)
  · rw [if_neg same] at member
    exact .inr member

theorem parkTail_suspended (disciplined : Disciplined kernel) (suspended : Suspended kernel)
    {queue : Queue} {frames : List Frame} (fits : Fits queue (topFrame frames)) :
    Suspended (kernel.parkTail queue frames) :=
  park_suspended disciplined.currentUnlinked (placed_toTail disciplined.toOrderly _ queue)
    (fun _ _ => mem_toTail disciplined.currentUnlinked)
    (fun other t _ old => suspended other t old) fits

theorem parkFront_suspended (disciplined : Disciplined kernel) (suspended : Suspended kernel)
    {queue : Queue} {frames : List Frame} (fits : Fits queue (topFrame frames)) :
    Suspended (kernel.parkFront queue frames) :=
  park_suspended disciplined.currentUnlinked (placed_toFront disciplined.toOrderly _ queue)
    (fun _ _ => mem_toFront disciplined.currentUnlinked)
    (fun other t _ old => suspended other t old) fits

@[simp] theorem finishCall_top (outcome : SequenceKernel × Option Int) (t : TaskId) :
    (finishCall outcome).top t = outcome.1.top t := by
  unfold finishCall
  split <;> simp [top, mapCore]

@[simp] theorem leaveKernel_top (kernel : SequenceKernel) (t : TaskId) :
    (kernel.mapCore Core.leaveKernel).top t = kernel.top t := by
  simp [top, mapCore]

theorem Suspended.finishCall {outcome : SequenceKernel × Option Int}
    (suspended : Suspended outcome.1) : Suspended (Kernel.finishCall outcome) := by
  apply suspended.congr
  · unfold Kernel.finishCall
    split <;> exact fun _ _ => id
  · simp

theorem Suspended.leaveKernel (suspended : Suspended kernel) :
    Suspended (kernel.mapCore Core.leaveKernel) :=
  suspended.congr (fun _ _ => id) (by simp)

theorem Suspended.leaveUnlessSwitched (suspended : Suspended kernel) :
    Suspended kernel.leaveUnlessSwitched := by
  unfold Kernel.leaveUnlessSwitched
  split
  · exact suspended
  · exact suspended.leaveKernel

theorem Suspended.withInput (suspended : Suspended kernel) (ram : Nat → Nat → UInt8)
    (circbuff : Circbuff) (readers : TaskId → Int) :
    Suspended ⟨kernel.core.withInput ram circbuff readers, kernel.queues⟩ :=
  suspended.congr (fun _ _ => id) fun _ => rfl

theorem Suspended.readies {core : Core} {t : TaskId} (suspended : Suspended kernel)
    (others : ∀ other, other ≠ t → (core.task other).kernelEsp = (kernel.core.task other).kernelEsp)
    (placed : Placed kernel.states kernel.queues)
    (here : ¬Reads (topFrame (core.task t).kernelEsp)) :
    Suspended ⟨core, kernel.queues.toTail t .readyqueue⟩ := by
  intro queue other member
  by_cases same : other = t
  · subst same
    have isReady : queue = .readyqueue := by
      by_contra different
      have inside : other ∈ ((kernel.queues.remove other).set .readyqueue
        ((kernel.queues.remove other).elements .readyqueue ++ [other])).elements queue := member
      rw [Sequences.set_elements, if_neg different] at inside
      exact placed.remove_not_linked ⟨queue, inside⟩
    subst isReady
    exact here
  · have old : other ∈ kernel.queues.elements queue := by
      have inside : other ∈ ((kernel.queues.remove t).set .readyqueue
        ((kernel.queues.remove t).elements .readyqueue ++ [t])).elements queue := member
      rw [Sequences.set_elements] at inside
      by_cases isReady : queue = .readyqueue
      · rw [if_pos isReady, List.mem_append, List.mem_singleton] at inside
        rw [isReady]
        exact (placed.mem_remove.mp (inside.resolve_right same)).2
      · rw [if_neg isReady] at inside
        exact (placed.mem_remove.mp inside).2
    show Fits queue (topFrame (core.task other).kernelEsp)
    rw [others other same]
    exact suspended queue other old

theorem not_reads_of_semWait {top : Option Frame} (waits : top = some .sysSemWait) :
    ¬Reads top := by
  rintro (queued | ⟨buffer, count, i, loop⟩)
  · rw [waits] at queued
    cases queued
  · rw [waits] at loop
    cases loop

theorem ForkOutcome.suspended (disciplined : Disciplined kernel) (suspended : Suspended kernel)
    {outcome : SequenceKernel × Int} (forked : ForkOutcome kernel outcome) :
    Suspended outcome.1 := by
  cases forked with
  | full empty => exact suspended
  | noMemory child rest free mm outOfFrames =>
      intro queue t member
      have both : t ≠ child ∧ t ∈ kernel.queues.elements queue :=
        disciplined.placed.mem_remove.mp member
      have same : (kernel.forkFailed child mm).top t = kernel.top t := by
        simp [top, forkFailed, both.1]
      rw [same]
      exact suspended queue t both.2
  | forked child rest free mm copied =>
      apply suspended.readies _ disciplined.placed
      · simp [Reads, topFrame]
      · intro other different
        simp [different]

theorem CloneOutcome.suspended (disciplined : Disciplined kernel) (suspended : Suspended kernel)
    {function stack : Nat} {outcome : SequenceKernel × Int}
    (cloned : CloneOutcome kernel function stack outcome) : Suspended outcome.1 := by
  cases cloned with
  | refused error negative => exact suspended
  | cloned child rest free =>
      apply suspended.readies _ disciplined.placed
      · simp [Reads, topFrame]
      · intro other different
        simp [different, Core.cloneTo]

theorem SignalOutcome.suspended (disciplined : Disciplined kernel) (suspended : Suspended kernel)
    {nSem : Int} {outcome : SequenceKernel × Int} (signalled : SignalOutcome kernel nSem outcome) :
    Suspended outcome.1 := by
  cases signalled with
  | refused unusable => exact suspended
  | counts sem index owned empty => exact suspended.congr (fun _ _ => id) fun _ => by simp [top]
  | wakes sem index owned first rest waiting =>
      have member : first ∈ kernel.queues.elements (.blocked sem) := by simp [waiting]
      have waits : kernel.top first = some .sysSemWait := suspended _ _ member
      apply suspended.readies _ disciplined.placed
      · rw [Core.setState_task]
        exact not_reads_of_semWait waits
      · simp

theorem Woken.tops {which : SemId → Prop} (woken : Woken which kernel after) (t : TaskId) :
    after.top t = kernel.top t := by
  by_cases waiting : ∃ sem, which sem ∧ t ∈ kernel.queues.elements (.blocked sem)
  · rcases waiting with ⟨sem, chosen, member⟩
    rw [top, woken.woken chosen member]
    rfl
  · rw [top, woken.others fun sem chosen member => waiting ⟨sem, chosen, member⟩]
    rfl

theorem Woken.suspended {which : SemId → Prop} (suspended : Suspended kernel)
    (woken : Woken which kernel after) : Suspended after := by
  intro queue t member
  rw [woken.tops]
  cases queue with
  | freequeue => trivial
  | keyboardqueue => exact suspended .keyboardqueue t (woken.keyboardqueue ▸ member)
  | blocked sem =>
      by_cases chosen : which sem
      · rw [woken.emptied chosen] at member
        cases member
      · exact suspended (.blocked sem) t (woken.blocked chosen ▸ member)
  | readyqueue =>
      rcases woken.readyqueue with ⟨joined, ready, members⟩
      rw [ready, List.mem_append] at member
      rcases member with old | new
      · exact suspended .readyqueue t old
      · rcases (members t).mp new with ⟨sem, -, waiting⟩
        exact not_reads_of_semWait (suspended (.blocked sem) t waiting)

theorem DestroyOutcome.suspended (suspended : Suspended kernel) {nSem : Int}
    {outcome : SequenceKernel × Int} (destroyed : DestroyOutcome kernel nSem outcome) :
    Suspended outcome.1 := by
  cases destroyed with
  | refused unusable => exact suspended
  | notOwner sem index owned other => exact suspended
  | destroyed sem index owned owner after woken orderly semArray => exact woken.suspended suspended

theorem InitOutcome.suspended (suspended : Suspended kernel) {nSem : Int} {value : Nat}
    {outcome : SequenceKernel × Int} (initialised : InitOutcome kernel nSem value outcome) :
    Suspended outcome.1 := by
  cases initialised with
  | refused index => exact suspended
  | busy sem index owned => exact suspended
  | initialised sem index unowned =>
      exact suspended.congr (fun _ _ => id) fun _ => by simp [top]

theorem WaitOutcome.suspended (disciplined : Disciplined kernel) (suspended : Suspended kernel)
    {nSem : Int} {outcome : SequenceKernel × Option Int}
    (waited : WaitOutcome kernel nSem outcome) : Suspended outcome.1 := by
  cases waited with
  | refused unusable => exact suspended
  | passes sem index owned positive => exact suspended.congr (fun _ _ => id) fun _ => by simp [top]
  | blocks sem index owned exhausted =>
      apply parkTail_suspended disciplined suspended
      rfl

theorem ExitOutcome.suspended (disciplined : Disciplined kernel) (suspended : Suspended kernel)
    (exited : ExitOutcome kernel after) : Suspended after := by
  cases exited with
  | exited released destroyed mm freed =>
      have released' := destroyed.woken.suspended suspended
      have unlinked := destroyed.woken.current_unlinked disciplined
      have placed := freed_placed destroyed.orderly unlinked mm
      have members : ∀ {queue t}, t ∈ (released.freed mm).queues.elements queue →
          queue = .freequeue ∧ t = released.core.current ∨ t ∈ released.queues.elements queue :=
        fun member => mem_toTail unlinked member
      have current : (released.freed mm).core.current = released.core.current := by
        simp [Kernel.freed]
      apply dispatch_suspended placed
      · intro queue t member notCurrent
        rw [current] at notCurrent
        have same : (released.freed mm).top t = released.top t := by
          simp [top, Kernel.freed, notCurrent]
        rw [same]
        rcases members (dispatch_mem placed member) with ⟨-, isCurrent⟩ | old
        · exact absurd isCurrent notCurrent
        · exact released' queue t old
      · intro queue member
        rw [current] at member
        rcases members member with ⟨isFree, -⟩ | old
        · rw [isFree]
          trivial
        · exact absurd ⟨queue, old⟩ unlinked

theorem LoopOutcome.suspended (disciplined : Disciplined kernel) (suspended : Suspended kernel)
    {buffer : Nat} {count i : Int} {outcome : SequenceKernel × Option Int}
    (loop : LoopOutcome kernel buffer count i outcome) : Suspended outcome.1 := by
  cases loop with
  | finished taken core takes complete =>
      rw [takes.withInput]
      exact suspended.withInput _ _ _
  | waits taken core takes more drained =>
      rw [takes.withInput]
      apply parkFront_suspended (disciplined.withInput _ _ _) (suspended.withInput _ _ _)
      exact .inr ⟨buffer, count, _, rfl, more⟩

theorem Suspended.requesting (suspended : Suspended kernel) (count : Int) :
    Suspended (kernel.requesting count) :=
  suspended.congr (fun _ _ => id) fun _ => rfl

theorem ReadCall.suspended (disciplined : Disciplined kernel) (suspended : Suspended kernel)
    {fd : Int} {buffer : Nat} {count i : Int} {outcome : SequenceKernel × Option Int}
    (call : ReadCall kernel fd buffer count i outcome) : Suspended outcome.1 := by
  cases call with
  | refused error positive invalid => exact suspended
  | loops accepted alone outcome loop =>
      exact loop.suspended (disciplined.requesting count) (suspended.requesting count)
  | queued accepted behind =>
      apply parkTail_suspended (disciplined.requesting count) (suspended.requesting count)
      exact .inl rfl

theorem mem_front (placed : Placed kernel.states kernel.queues) {queue other : Queue}
    {reader t : TaskId} (member : t ∈ (kernel.queues.toFront reader queue).elements other) :
    other = queue ∧ t = reader ∨ t ∈ kernel.queues.elements other := by
  have inside : t ∈ ((kernel.queues.remove reader).set queue
    (reader :: (kernel.queues.remove reader).elements queue)).elements other := member
  rw [Sequences.set_elements] at inside
  by_cases same : other = queue
  · rw [if_pos same, List.mem_cons] at inside
    rcases inside with isReader | old
    · exact .inl ⟨same, isReader⟩
    · rw [same]
      exact .inr (placed.mem_remove.mp old).2
  · rw [if_neg same] at inside
    exact .inr (placed.mem_remove.mp inside).2

theorem woken_current (disciplined : Disciplined kernel) {reader : TaskId} {rest : List TaskId}
    (waiting : kernel.queues.elements .keyboardqueue = reader :: rest) {circbuff : Circbuff}
    {readers : TaskId → Int} (frames : List Frame) :
    (Kernel.parkTail
      ⟨(kernel.core.withInput kernel.core.mm.ram circbuff readers).setState reader .ready,
        kernel.queues.toFront reader .readyqueue⟩ .readyqueue frames).core.current = reader := by
  have member : reader ∈ kernel.queues.elements .keyboardqueue := by simp [waiting]
  have ready := reader_disciplined disciplined member circbuff readers
  rw [parkTail, dispatch_current]
  have front : ((kernel.queues.toFront reader .readyqueue).toTail
      kernel.core.current .readyqueue).elements .readyqueue =
      (kernel.queues.toFront reader .readyqueue).elements .readyqueue ++ [kernel.core.current] := by
    exact (Sequences.toTail_unlinked ready.currentUnlinked).trans (if_pos rfl)
  refine (congrArg (List.headD · _) front).trans ?_
  simp [Sequences.toFront]

theorem KeyOutcome.suspended (disciplined : Disciplined kernel) (suspended : Suspended kernel)
    {result : UInt8} (key : KeyOutcome kernel result after) : Suspended after := by
  cases key with
  | buffered reader rest waiting incomplete => exact suspended.withInput _ _ _
  | wakes reader rest waiting complete =>
      have member : reader ∈ kernel.queues.elements .keyboardqueue := by simp [waiting]
      have ready := reader_disciplined disciplined member (kernel.core.circbuff.push result)
        (Function.update kernel.core.keyboardReadersCount reader
          (kernel.core.keyboardReadersCount reader - (kernel.core.circbuff.push result).counter))
      have running := (KeyOutcome.wakes reader rest waiting complete).disciplined disciplined
      apply park_suspended ready.currentUnlinked (placed_toTail ready.toOrderly _ .readyqueue)
        (fun _ _ => mem_toTail ready.currentUnlinked) _ (by simp [Fits, Reads, topFrame])
      intro other t member old
      rcases mem_front disciplined.placed old with ⟨isReady, isReader⟩ | waits
      · -- the reader has the processor already
        rw [isReady, isReader] at member
        apply absurd _ running.currentUnlinked
        rw [woken_current disciplined waiting]
        exact ⟨.readyqueue, member⟩
      · simpa [top, Core.withInput] using suspended other t waits

theorem ClockOutcome.suspended (disciplined : Disciplined kernel) (suspended : Suspended kernel)
    (clock : ClockOutcome kernel after) : Suspended after := by
  cases clock with
  | continues left => exact suspended
  | idles expired idle =>
      apply dispatch_suspended disciplined.placed
      · exact fun queue t member _ => suspended queue t (dispatch_mem disciplined.placed member)
      · exact fun queue member => absurd ⟨queue, member⟩ disciplined.currentUnlinked
  | preempts expired notIdle =>
      apply parkTail_suspended disciplined suspended
      simp [Fits, Reads, topFrame]

theorem ResumeOutcome.suspended (disciplined : Disciplined kernel) (suspended : Suspended kernel)
    (resumed : ResumeOutcome kernel after) : Suspended after := by
  cases resumed with
  | idles top => exact suspended
  | interrupt frame top kind => exact suspended.leaveKernel
  | returns frame top kind => exact Suspended.finishCall suspended
  | waited top =>
      apply Suspended.finishCall
      exact suspended.congr (fun _ _ => id) fun _ => by simp [Kernel.top]
  | reads buffer count i top outcome loop =>
      exact Suspended.finishCall (loop.suspended disciplined suspended)

theorem Effect.suspended (disciplined : Disciplined kernel) (suspended : Suspended kernel)
    {event : Event} (effect : Effect kernel event after) : Suspended after := by
  cases effect with
  | resume outcome => exact outcome.suspended disciplined suspended
  | clock outcome => exact (outcome.suspended disciplined suspended).leaveUnlessSwitched
  | ignored llegit refused => exact suspended.leaveKernel
  | keyboard llegit accepted outcome =>
      exact (outcome.suspended disciplined suspended).leaveUnlessSwitched
  | getpid result => exact Suspended.finishCall suspended
  | gettime result => exact Suspended.finishCall suspended
  | fork outcome => exact Suspended.finishCall (outcome.suspended disciplined suspended)
  | clone function stack outcome =>
      exact Suspended.finishCall (outcome.suspended disciplined suspended)
  | exit outcome => exact outcome.suspended disciplined suspended
  | sbrk amount outcome =>
      apply Suspended.finishCall
      cases outcome <;> exact suspended.congr (fun _ _ => id) fun _ => rfl
  | semInit nSem value outcome => exact Suspended.finishCall (outcome.suspended suspended)
  | semWait nSem outcome => exact Suspended.finishCall (outcome.suspended disciplined suspended)
  | semSignal nSem outcome => exact Suspended.finishCall (outcome.suspended disciplined suspended)
  | semDestroy nSem outcome => exact Suspended.finishCall (outcome.suspended suspended)
  | read fd buffer count i call =>
      exact Suspended.finishCall (call.suspended disciplined suspended)
  | write fd buffer size result => exact Suspended.finishCall suspended
  | getStats pid st told =>
      apply Suspended.finishCall
      cases told with
      | refused error positive => exact suspended
      | stored t found notNegative accepted mm stored =>
          apply suspended.congr
          · exact fun _ _ => id
          · intro other
            show topFrame ((kernel.core.setRemaining t).task other).kernelEsp = _
            rw [Core.setRemaining_task]
            rfl
  | niSyscall => exact Suspended.finishCall suspended

end Effects

section Steps

variable {machine : Machine} {before after : SequenceKernel} {event : Event}

theorem Suspended.entered (suspended : Suspended before) {core : Core}
    (entry : Entry event before.core core) : Suspended ⟨core, before.queues⟩ := by
  apply suspended.congr
  · exact fun _ _ => id
  · intro t
    show topFrame (core.task t).kernelEsp = _
    rw [entry.task]
    rfl

theorem step_suspended (disciplined : Disciplined before) (suspended : Suspended before)
    (step : (checkedZeos machine).step before event after) : Suspended after := by
  rcases step_effect disciplined step with ⟨core, entry, entered, -, effect⟩
  exact effect.suspended entered (suspended.entered entry)

theorem boot_suspended (machine : Machine) :
    Suspended ⟨machine.bootCore 0 1, bootSequences⟩ := by
  intro queue t member
  have onlyFree : ∀ {queue t}, t ∈ bootSequences.elements queue → queue = .freequeue := by
    decide
  rw [onlyFree member]
  trivial

end Steps

end Zeos
