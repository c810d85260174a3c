import Zeos.Ownership
import Zeos.RoundRobin
import Zeos.Suspension

/-! # Destroy indications

How a wait ends: by a signal, or by the end of the semaphore, which the waiter
learns from a flag that is set for it when it is made ready and cleared when it
goes on.
-/

namespace Zeos

open Foundation Kernel

def Kernel.flag (kernel : SequenceKernel) (t : TaskId) : Bool :=
  (kernel.core.task t).semdestroyed

def Kernel.DestroyedBy (kernel : SequenceKernel) (event : Event) (sem : SemId) : Prop :=
  kernel.OwnedByCurrent sem ∧
    (event = .exit ∨ ∃ nSem, event = .semDestroy nSem ∧ semIndex nSem = some sem)

/-- The event is a signal, and `t` is the first to get it. -/
def Kernel.SignalledBy (kernel : SequenceKernel) (event : Event) (sem : SemId) (t : TaskId) :
    Prop :=
  (kernel.queues.elements (.blocked sem)).head? = some t ∧
    ∃ nSem, event = .semSignal nSem ∧ semIndex nSem = some sem

/-- `t` is ready, or has been switched to. -/
def Kernel.Pending (kernel : SequenceKernel) (t : TaskId) : Prop :=
  t ∈ kernel.ready ∨ kernel.core.inKernel = true ∧ kernel.core.current = t

def Kernel.CarriesFlag (kernel : SequenceKernel) (event : Event) : Prop :=
  kernel.flag kernel.core.current = true ∧
    (event = .resume → kernel.top kernel.core.current ≠ some .sysSemWait)

structure Indicates (kernel : SequenceKernel) (event : Event) (after : SequenceKernel) : Prop where
  tops : ∀ t, t ≠ kernel.core.current → t ∉ kernel.queues.elements .freequeue →
    after.top t = kernel.top t
  flags : ∀ t, t ≠ kernel.core.current → t ∉ kernel.queues.elements .freequeue →
    (after.flag t = true ↔ kernel.flag t = true ∨
      ∃ sem, kernel.DestroyedBy event sem ∧ t ∈ kernel.queues.elements (.blocked sem))
  caller : after.flag kernel.core.current = true → kernel.CarriesFlag event
  free : ∀ t ∈ kernel.queues.elements .freequeue, after.flag t = true →
    kernel.flag t = true ∨ kernel.CarriesFlag event
  waits : ∀ sem t, t ∈ kernel.queues.elements (.blocked sem) →
    ¬kernel.DestroyedBy event sem ∧ ¬kernel.SignalledBy event sem t ∧
        t ∈ after.queues.elements (.blocked sem) ∨
      (kernel.DestroyedBy event sem ∨ kernel.SignalledBy event sem t) ∧ after.Pending t

/-! ## The steps of the kernel -/

section Effects

variable {kernel after : SequenceKernel}

structure Uneventful (kernel after : SequenceKernel) : Prop where
  others : ∀ t, t ≠ kernel.core.current → t ∉ kernel.queues.elements .freequeue →
    after.top t = kernel.top t ∧ after.flag t = kernel.flag t
  caller : after.flag kernel.core.current = kernel.flag kernel.core.current ∨
    after.flag kernel.core.current = false
  free : ∀ t ∈ kernel.queues.elements .freequeue,
    after.flag t = kernel.flag t ∨ after.flag t = kernel.flag kernel.core.current
  waits : ∀ sem t, t ∈ kernel.queues.elements (.blocked sem) →
    t ∈ after.queues.elements (.blocked sem)

def Event.Keeps : Event → Prop
  | .exit | .semDestroy _ | .semSignal _ => False
  | _ => True

theorem Event.Keeps.notDestroyed {event : Event} (keeps : event.Keeps) (sem : SemId) :
    ¬kernel.DestroyedBy event sem := by
  rintro ⟨-, isExit | ⟨nSem, isDestroy, -⟩⟩
  · rw [isExit] at keeps
    exact keeps
  · rw [isDestroy] at keeps
    exact keeps

theorem Event.Keeps.notSignalled {event : Event} (keeps : event.Keeps) (sem : SemId) (t : TaskId) :
    ¬kernel.SignalledBy event sem t := by
  rintro ⟨-, nSem, isSignal, -⟩
  rw [isSignal] at keeps
  exact keeps

theorem Uneventful.indicates {event : Event} (uneventful : Uneventful kernel after)
    (notDestroyed : ∀ sem, ¬kernel.DestroyedBy event sem)
    (notSignalled : ∀ sem t, ¬kernel.SignalledBy event sem t)
    (clears : event = .resume → kernel.top kernel.core.current = some .sysSemWait →
      after.flag kernel.core.current = false ∧
        ∀ t ∈ kernel.queues.elements .freequeue, after.flag t = kernel.flag t) :
    Indicates kernel event after where
  tops t notCurrent notFree := (uneventful.others t notCurrent notFree).1
  flags t notCurrent notFree := by
    rw [(uneventful.others t notCurrent notFree).2]
    constructor
    · exact .inl
    · rintro (flagged | ⟨sem, destroyed, -⟩)
      · exact flagged
      · exact absurd destroyed (notDestroyed sem)
  caller flagged := by
    refine ⟨?_, fun isResume top => ?_⟩
    · rcases uneventful.caller with same | clear
      · rwa [same] at flagged
      · rw [clear] at flagged
        cases flagged
    · rw [(clears isResume top).1] at flagged
      cases flagged
  free t member flagged := by
    rcases uneventful.free t member with same | copied
    · exact .inl (by rwa [same] at flagged)
    · by_cases waited : event = .resume ∧ kernel.top kernel.core.current = some .sysSemWait
      · exact .inl (by rwa [(clears waited.1 waited.2).2 t member] at flagged)
      · exact .inr ⟨by rwa [copied] at flagged, fun isResume top => waited ⟨isResume, top⟩⟩
  waits sem t member := .inl ⟨notDestroyed sem, notSignalled sem t, uneventful.waits sem t member⟩

theorem Uneventful.refl (kernel : SequenceKernel) : Uneventful kernel kernel :=
  ⟨fun _ _ _ => ⟨rfl, rfl⟩, .inl rfl, fun _ _ => .inl rfl, fun _ _ => id⟩

theorem Uneventful.congr (uneventful : Uneventful kernel after) {left : SequenceKernel}
    (tops : ∀ t, left.top t = after.top t) (flags : ∀ t, left.flag t = after.flag t)
    (queues : ∀ sem, left.queues.elements (.blocked sem) = after.queues.elements (.blocked sem)) :
    Uneventful kernel left where
  others t notCurrent notFree := by
    rw [tops, flags]
    exact uneventful.others t notCurrent notFree
  caller := by
    rw [flags]
    exact uneventful.caller
  free t member := by
    rw [flags]
    exact uneventful.free t member
  waits sem t member := by
    rw [queues]
    exact uneventful.waits sem t member

@[simp] theorem finishCall_flag (outcome : SequenceKernel × Option Int) (t : TaskId) :
    (finishCall outcome).flag t = outcome.1.flag t := by
  unfold finishCall
  split <;> simp [flag, mapCore]

@[simp] theorem dispatch_flag (kernel : SequenceKernel) (frames : List Frame) (t : TaskId) :
    (kernel.dispatch frames).flag t = kernel.flag t := by
  simp [flag]

theorem Uneventful.finishCall {outcome : SequenceKernel × Option Int}
    (uneventful : Uneventful kernel outcome.1) : Uneventful kernel (Kernel.finishCall outcome) :=
  uneventful.congr (by simp) (by simp) (by simp)

theorem Uneventful.leaveKernel (uneventful : Uneventful kernel after) :
    Uneventful kernel (after.mapCore Core.leaveKernel) :=
  uneventful.congr (by simp) (by simp [flag, mapCore]) fun _ => rfl

theorem Uneventful.leaveUnlessSwitched (uneventful : Uneventful kernel after) :
    Uneventful kernel after.leaveUnlessSwitched := by
  unfold Kernel.leaveUnlessSwitched
  split
  · exact uneventful
  · exact uneventful.leaveKernel

theorem Uneventful.dispatch {moved : SequenceKernel} (uneventful : Uneventful kernel moved)
    (current : moved.core.current = kernel.core.current)
    (placed : Placed moved.states moved.queues) (frames : List Frame) :
    Uneventful kernel (moved.dispatch frames) where
  others t notCurrent notFree := by
    rw [dispatch_top, if_neg (current.symm ▸ notCurrent), dispatch_flag]
    exact uneventful.others t notCurrent notFree
  caller := by
    rw [dispatch_flag]
    exact uneventful.caller
  free t member := by
    rw [dispatch_flag]
    exact uneventful.free t member
  waits sem t member := by
    rw [dispatch_elements placed frames Queue.noConfusion]
    exact uneventful.waits sem t member

theorem parkTail_uneventful (disciplined : Disciplined kernel) (queue : Queue)
    (frames : List Frame) : Uneventful kernel (kernel.parkTail queue frames) := by
  have moved : Uneventful kernel
      ⟨kernel.core.setState kernel.core.current (stateWithin queue),
        kernel.queues.toTail kernel.core.current queue⟩ := by
    refine ⟨fun t _ _ => by simp [top, flag], .inl (by simp [flag]),
      fun t _ => .inl (by simp [flag]), fun sem t member => ?_⟩
    show t ∈ (kernel.queues.toTail kernel.core.current queue).elements (.blocked sem)
    rw [Sequences.toTail_unlinked disciplined.currentUnlinked]
    split
    · rename_i same
      rw [← same]
      exact List.mem_append_left _ member
    · exact member
  apply moved.dispatch
  · simp
  · exact placed_toTail disciplined.toOrderly _ queue

theorem parkFront_uneventful (disciplined : Disciplined kernel) (frames : List Frame) :
    Uneventful kernel (kernel.parkFront .keyboardqueue frames) := by
  have moved : Uneventful kernel
      ⟨kernel.core.setState kernel.core.current .blocked,
        kernel.queues.toFront kernel.core.current .keyboardqueue⟩ := by
    refine ⟨fun t _ _ => by simp [top, flag], .inl (by simp [flag]),
      fun t _ => .inl (by simp [flag]), fun sem t member => ?_⟩
    show t ∈ (kernel.queues.toFront kernel.core.current .keyboardqueue).elements (.blocked sem)
    rw [Sequences.toFront_unlinked disciplined.currentUnlinked, if_neg Queue.noConfusion]
    exact member
  apply moved.dispatch
  · simp
  · exact placed_toFront disciplined.toOrderly _ .keyboardqueue

theorem Uneventful.of_same {start : SequenceKernel} (uneventful : Uneventful start after)
    (tops : ∀ t, start.top t = kernel.top t) (flags : ∀ t, start.flag t = kernel.flag t)
    (current : start.core.current = kernel.core.current)
    (freequeue : start.queues.elements .freequeue = kernel.queues.elements .freequeue)
    (blocked : ∀ sem, start.queues.elements (.blocked sem) =
      kernel.queues.elements (.blocked sem)) : Uneventful kernel after where
  others t notCurrent notFree := by
    rw [← tops, ← flags]
    exact uneventful.others t (current ▸ notCurrent) (freequeue ▸ notFree)
  caller := by
    rw [← flags, ← current]
    exact uneventful.caller
  free t member := by
    rw [← flags, ← flags, ← current]
    exact uneventful.free t (freequeue ▸ member)
  waits sem t member := by
    rw [← blocked] at member
    exact uneventful.waits sem t member

theorem ReadOutcome.uneventful (disciplined : Disciplined kernel)
    {outcome : SequenceKernel × Option Int} (read : ReadOutcome kernel outcome) :
    Uneventful kernel outcome.1 := by
  cases read with
  | finished ram circbuff readers result =>
      exact (Uneventful.refl kernel).congr (fun _ => rfl) (fun _ => rfl) fun _ => rfl
  | waits ram circbuff readers buffer count i =>
      apply (parkFront_uneventful (disciplined.withInput ram circbuff readers) _).of_same
      · exact fun _ => rfl
      · exact fun _ => rfl
      · rfl
      · rfl
      · exact fun _ => rfl
  | queued ram circbuff readers =>
      apply (parkTail_uneventful (disciplined.withInput ram circbuff readers) _ _).of_same
      · exact fun _ => rfl
      · exact fun _ => rfl
      · rfl
      · rfl
      · exact fun _ => rfl

theorem KeyOutcome.uneventful (disciplined : Disciplined kernel) {result : UInt8}
    (key : KeyOutcome kernel result after) : Uneventful kernel after := by
  cases key with
  | buffered reader rest waiting incomplete =>
      exact (Uneventful.refl kernel).congr (fun _ => rfl) (fun _ => rfl) fun _ => rfl
  | wakes reader rest waiting complete =>
      have member : reader ∈ kernel.queues.elements .keyboardqueue := by simp [waiting]
      have elsewhere : ∀ {queue}, queue ≠ .keyboardqueue → queue ≠ .readyqueue →
          (kernel.queues.toFront reader .readyqueue).elements queue =
            kernel.queues.elements queue := fun notThere notReady =>
        Sequences.toFront_elements_of_ne notReady
          (disciplined.placed.not_elsewhere member notThere)
      apply (parkTail_uneventful (reader_disciplined disciplined member _ _) _ _).of_same
      · intro t
        simp [top, Core.withInput]
      · intro t
        simp [flag, Core.withInput]
      · simp [Core.withInput]
      · exact elsewhere Queue.noConfusion Queue.noConfusion
      · exact fun _ => elsewhere Queue.noConfusion Queue.noConfusion

theorem ClockOutcome.uneventful (disciplined : Disciplined kernel)
    (clock : ClockOutcome kernel after) : Uneventful kernel after := by
  cases clock with
  | continues left => exact .refl kernel
  | idles expired idle => exact (Uneventful.refl kernel).dispatch rfl disciplined.placed _
  | preempts expired notIdle => exact parkTail_uneventful disciplined _ _

theorem ForkOutcome.uneventful (disciplined : Disciplined kernel) {outcome : SequenceKernel × Int}
    (forked : ForkOutcome kernel outcome) : Uneventful kernel outcome.1 := by
  have blocked : ∀ sem t, t ∈ kernel.queues.elements (.blocked sem) →
      t ∈ outcome.1.queues.elements (.blocked sem) := by
    intro sem t member
    have view : outcome.1.queues.elements (.blocked sem) = kernel.queues.elements (.blocked sem) :=
      congrArg SemView.waiters (@ForkOutcome.semView kernel sem disciplined _ forked)
    rwa [view]
  refine ⟨?_, ?_, ?_, blocked⟩
  · intro t notCurrent notFree
    cases forked with
    | full empty => exact ⟨rfl, rfl⟩
    | noMemory child rest free mm outOfFrames =>
        have different : t ≠ child := fun same => notFree (by simp [free, same])
        simp [top, flag, forkFailed, different]
    | forked child rest free mm copied =>
        have different : t ≠ child := fun same => notFree (by simp [free, same])
        simp [top, flag, Kernel.forked, different]
  · left
    cases forked with
    | full empty => rfl
    | noMemory child rest free mm outOfFrames => simp [flag, forkFailed]
    | forked child rest free mm copied => simp [flag, Kernel.forked]
  · intro t member
    cases forked with
    | full empty => exact .inl rfl
    | noMemory child rest free mm outOfFrames =>
        by_cases same : t = child
        · exact .inr (by simp [flag, forkFailed, same])
        · exact .inl (by simp [flag, forkFailed, same])
    | forked child rest free mm copied =>
        by_cases same : t = child
        · exact .inr (by simp [flag, Kernel.forked, same])
        · exact .inl (by simp [flag, Kernel.forked, same])

theorem CloneOutcome.uneventful (disciplined : Disciplined kernel) {function stack : Nat}
    {outcome : SequenceKernel × Int} (cloned : CloneOutcome kernel function stack outcome) :
    Uneventful kernel outcome.1 := by
  have blocked : ∀ sem t, t ∈ kernel.queues.elements (.blocked sem) →
      t ∈ outcome.1.queues.elements (.blocked sem) := by
    intro sem t member
    have view : outcome.1.queues.elements (.blocked sem) = kernel.queues.elements (.blocked sem) :=
      congrArg SemView.waiters (@CloneOutcome.semView kernel sem disciplined _ _ _ cloned)
    rwa [view]
  cases cloned with
  | refused error negative => exact .refl kernel
  | cloned child rest free =>
      have isFree : child ∈ kernel.queues.elements .freequeue := by simp [free]
      have notChild := (child_ne_current disciplined isFree).symm
      refine ⟨?_, ?_, ?_, blocked⟩
      · intro t notCurrent notFree
        have different : t ≠ child := fun same => notFree (by simp [free, same])
        simp [top, flag, Kernel.cloned, Core.cloneTo, different]
      · left
        simp [flag, Kernel.cloned, Core.cloneTo, notChild]
      · intro t member
        by_cases same : t = child
        · exact .inr (by simp [flag, Kernel.cloned, Core.cloneTo, same])
        · exact .inl (by simp [flag, Kernel.cloned, Core.cloneTo, same])

theorem WaitOutcome.uneventful (disciplined : Disciplined kernel) {nSem : Int}
    {outcome : SequenceKernel × Option Int} (waited : WaitOutcome kernel nSem outcome) :
    Uneventful kernel outcome.1 := by
  cases waited with
  | refused unusable => exact .refl kernel
  | passes sem index owned positive =>
      refine ⟨fun t notCurrent _ => by simp [top, flag, notCurrent], .inr (by simp [flag]),
        fun t member => .inl ?_, fun _ _ => id⟩
      simp [flag, child_ne_current disciplined member]
  | blocks sem index owned exhausted => exact parkTail_uneventful disciplined _ _

theorem ResumeOutcome.uneventful (disciplined : Disciplined kernel)
    (resumed : ResumeOutcome kernel after) : Uneventful kernel after ∧
      (kernel.top kernel.core.current = some .sysSemWait →
        after.flag kernel.core.current = false ∧
          ∀ t ∈ kernel.queues.elements .freequeue, after.flag t = kernel.flag t) := by
  have other : ∀ {frame}, topFrame kernel.currentTask.kernelEsp = some frame →
      frame ≠ .sysSemWait → kernel.top kernel.core.current ≠ some .sysSemWait := by
    intro frame top different waits
    exact different (Option.some.inj (top.symm.trans waits))
  cases resumed with
  | idles top =>
      refine ⟨.refl kernel, fun waits => ?_⟩
      cases top _ waits
  | interrupt frame top kind =>
      refine ⟨(Uneventful.refl kernel).leaveKernel, fun waits => absurd waits (other top ?_)⟩
      rcases kind with isKey | isClock <;> simp [*]
  | returns frame top kind =>
      refine ⟨(Uneventful.refl kernel).finishCall, fun waits => absurd waits (other top ?_)⟩
      rcases kind with isFork | isQueued | isExit <;> simp [*]
  | waited top =>
      have free : ∀ t ∈ kernel.queues.elements .freequeue,
          Kernel.flag ⟨kernel.core.setSemdestroyed kernel.core.current false, kernel.queues⟩ t =
            kernel.flag t := by
        intro t member
        simp [flag, child_ne_current disciplined member]
      refine ⟨Uneventful.finishCall ?_, fun _ => ⟨?_, ?_⟩⟩
      · refine ⟨fun t notCurrent _ => by simp [Kernel.top, flag, notCurrent],
          .inr (by simp [flag]), fun t member => .inl (free t member), fun _ _ => id⟩
      · rw [finishCall_flag]
        simp [flag]
      · intro t member
        rw [finishCall_flag]
        exact free t member
  | reads buffer count i top outcome loop =>
      refine ⟨(loop.coarse.uneventful disciplined).finishCall, fun waits => absurd waits
        (other top Frame.noConfusion)⟩

theorem dispatch_pending {t : TaskId} (frames : List Frame) (ready : t ∈ kernel.ready) :
    (kernel.dispatch frames).Pending t := by
  unfold Kernel.Pending Kernel.ready at *
  rw [dispatch_readyqueue, dispatch_current]
  cases contents : kernel.queues.elements .readyqueue with
  | nil =>
      rw [contents] at ready
      cases ready
  | cons next rest =>
      rw [contents, List.mem_cons] at ready
      rcases ready with isNext | later
      · exact .inr ⟨by simp, isNext.symm⟩
      · exact .inl later

theorem SignalOutcome.indicates (disciplined : Disciplined kernel) {nSem : Int}
    {outcome : SequenceKernel × Int} (signalled : SignalOutcome kernel nSem outcome) :
    Indicates kernel (.semSignal nSem) (finishCall (outcome.1, some outcome.2)) := by
  have notDestroyed : ∀ sem, ¬kernel.DestroyedBy (.semSignal nSem) sem := by
    rintro sem ⟨-, isExit | ⟨nSem, isDestroy, -⟩⟩
    · cases isExit
    · cases isDestroy
  cases signalled with
  | refused unusable =>
      apply (Uneventful.refl kernel).finishCall.indicates notDestroyed
      · rintro sem t ⟨first, nSem', same, index⟩
        cases same
        have nobody := disciplined.unowned sem (unusable sem index)
        rw [nobody] at first
        cases first
      · exact Event.noConfusion
  | counts sem index owned empty =>
      have same : Uneventful kernel ⟨kernel.core.setCounter sem
          ((kernel.core.semArray sem).counter + 1), kernel.queues⟩ :=
        (Uneventful.refl kernel).congr (by simp [top]) (by simp [flag]) fun _ => rfl
      apply same.finishCall.indicates notDestroyed
      · rintro other t ⟨first, nSem', same, index'⟩
        cases same
        rw [index] at index'
        cases index'
        rw [empty] at first
        cases first
      · exact Event.noConfusion
  | wakes sem index owned first rest waiting =>
      have member : first ∈ kernel.queues.elements (.blocked sem) := by simp [waiting]
      refine ⟨?_, ?_, ?_, ?_, ?_⟩
      · intro t _ _
        rw [finishCall_top]
        simp [top, wake]
      · intro t _ _
        rw [finishCall_flag]
        have same : (kernel.wake first).flag t = kernel.flag t := by simp [flag, wake]
        rw [same]
        constructor
        · exact .inl
        · rintro (flagged | ⟨sem, destroyed, -⟩)
          · exact flagged
          · exact absurd destroyed (notDestroyed sem)
      · intro flagged
        rw [finishCall_flag] at flagged
        exact ⟨by simpa [flag, wake] using flagged, Event.noConfusion⟩
      · intro t _ flagged
        rw [finishCall_flag] at flagged
        exact .inl (by simpa [flag, wake] using flagged)
      · intro other t waits
        by_cases isFirst : t = first
        · have same : other = sem := by
            rw [isFirst] at waits
            cases disciplined.placed.apart waits member
            rfl
          refine .inr ⟨.inr ⟨?_, nSem, rfl, same ▸ index⟩, .inl ?_⟩
          · rw [same, waiting, isFirst, List.head?_cons]
          · show t ∈ (finishCall ((kernel.wake first), some 0)).queues.elements .readyqueue
            rw [finishCall_queues]
            simp [wake, Sequences.toTail, isFirst]
        · refine .inl ⟨notDestroyed other, ?_, ?_⟩
          · rintro ⟨head, nSem', same, index'⟩
            cases same
            rw [index] at index'
            cases index'
            rw [waiting, List.head?_cons, Option.some.injEq] at head
            exact isFirst head.symm
          · show t ∈ (finishCall ((kernel.wake first), some 0)).queues.elements (.blocked other)
            rw [finishCall_queues]
            show t ∈ (kernel.queues.toTail first .readyqueue).elements (.blocked other)
            have moved : t ∈ ((kernel.queues.remove first).set .readyqueue
                ((kernel.queues.remove first).elements .readyqueue ++ [first])).elements
                  (.blocked other) := by
              rw [Sequences.set_elements, if_neg Queue.noConfusion]
              exact disciplined.placed.mem_remove.mpr ⟨isFirst, waits⟩
            exact moved

theorem Woken.flags {which : SemId → Prop} (woken : Woken which kernel after) (t : TaskId) :
    after.flag t = true ↔ kernel.flag t = true ∨
      ∃ sem, which sem ∧ t ∈ kernel.queues.elements (.blocked sem) := by
  by_cases waits : ∃ sem, which sem ∧ t ∈ kernel.queues.elements (.blocked sem)
  · rcases waits with ⟨sem, chosen, member⟩
    have flagged : after.flag t = true := by
      rw [flag, woken.woken chosen member]
    exact iff_of_true flagged (.inr ⟨sem, chosen, member⟩)
  · have same : after.flag t = kernel.flag t := by
      rw [flag, woken.others fun sem chosen member => waits ⟨sem, chosen, member⟩]
      rfl
    rw [same, or_iff_left waits]

theorem Woken.waits {which : SemId → Prop} (woken : Woken which kernel after) {sem : SemId}
    {t : TaskId} (member : t ∈ kernel.queues.elements (.blocked sem)) :
    ¬which sem ∧ t ∈ after.queues.elements (.blocked sem) ∨ which sem ∧ t ∈ after.ready := by
  by_cases chosen : which sem
  · rcases woken.readyqueue with ⟨joined, ready, members⟩
    refine .inr ⟨chosen, ?_⟩
    rw [Kernel.ready, ready]
    exact List.mem_append_right _ ((members t).mpr ⟨sem, chosen, member⟩)
  · refine .inl ⟨chosen, ?_⟩
    rwa [woken.blocked chosen]

theorem Woken.current_flag {which : SemId → Prop} (disciplined : Disciplined kernel)
    (woken : Woken which kernel after) :
    after.flag kernel.core.current = kernel.flag kernel.core.current := by
  unfold flag
  rw [woken.task_unlinked disciplined.currentUnlinked]

theorem Woken.free_flag {which : SemId → Prop} (disciplined : Disciplined kernel)
    (woken : Woken which kernel after) {t : TaskId}
    (free : t ∈ kernel.queues.elements .freequeue) : after.flag t = kernel.flag t := by
  unfold flag
  rw [woken.others fun sem _ => disciplined.placed.not_elsewhere free Queue.noConfusion]

theorem DestroyOutcome.indicates (disciplined : Disciplined kernel) {nSem : Int}
    {outcome : SequenceKernel × Int} (destroyed : DestroyOutcome kernel nSem outcome) :
    Indicates kernel (.semDestroy nSem) (finishCall (outcome.1, some outcome.2)) := by
  have notSignalled : ∀ sem t, ¬kernel.SignalledBy (.semDestroy nSem) sem t := by
    rintro sem t ⟨-, nSem, isSignal, -⟩
    cases isSignal
  cases destroyed with
  | refused unusable =>
      apply (Uneventful.refl kernel).finishCall.indicates _ notSignalled Event.noConfusion
      rintro sem ⟨owned, isExit | ⟨nSem', same, index⟩⟩
      · cases isExit
      · cases same
        exact owned.1 (unusable sem index)
  | notOwner called index owned other =>
      apply (Uneventful.refl kernel).finishCall.indicates _ notSignalled Event.noConfusion
      rintro sem ⟨owner, isExit | ⟨nSem', same, index'⟩⟩
      · cases isExit
      · cases same
        rw [index] at index'
        cases index'
        exact other owner.2
  | destroyed called index owned owner after woken orderly semArray =>
      have chosen : ∀ sem, kernel.DestroyedBy (.semDestroy nSem) sem ↔ sem = called := by
        intro sem
        constructor
        · rintro ⟨-, isExit | ⟨nSem', same, index'⟩⟩
          · cases isExit
          · cases same
            exact Option.some.inj (index'.symm.trans index)
        · intro same
          subst same
          exact ⟨⟨owned, owner⟩, .inr ⟨nSem, rfl, index⟩⟩
      refine ⟨?_, ?_, ?_, ?_, ?_⟩
      · intro t _ _
        rw [finishCall_top]
        exact woken.tops t
      · intro t _ _
        rw [finishCall_flag, woken.flags]
        simp only [chosen]
      · intro flagged
        rw [finishCall_flag, woken.current_flag disciplined] at flagged
        exact ⟨flagged, Event.noConfusion⟩
      · intro t free flagged
        rw [finishCall_flag, woken.free_flag disciplined free] at flagged
        exact .inl flagged
      · intro sem t waits
        rw [chosen]
        rcases woken.waits waits with ⟨other, still⟩ | ⟨same, ready⟩
        · refine .inl ⟨other, notSignalled sem t, ?_⟩
          rw [finishCall_queues]
          exact still
        · refine .inr ⟨.inl same, .inl ?_⟩
          rw [Kernel.ready, finishCall_queues]
          exact ready

theorem ExitOutcome.indicates (disciplined : Disciplined kernel)
    (exited : ExitOutcome kernel after) : Indicates kernel .exit after := by
  have notSignalled : ∀ sem t, ¬kernel.SignalledBy .exit sem t := by
    rintro sem t ⟨-, nSem, isSignal, -⟩
    cases isSignal
  have chosen : ∀ sem, kernel.DestroyedBy .exit sem ↔ kernel.OwnedByCurrent sem := by
    intro sem
    constructor
    · exact fun destroyed => destroyed.1
    · exact fun owned => ⟨owned, .inl rfl⟩
  cases exited with
  | exited released destroyed mm freed =>
      have current := destroyed.woken.current_eq
      have unlinked := destroyed.woken.current_unlinked disciplined
      have flags : ∀ t, (released.retire mm).flag t = released.flag t := by
        intro t
        rw [retire, dispatch_flag]
        by_cases same : t = released.core.current <;> simp [flag, Kernel.freed, same]
      have queues := fun sem => @retire_elements released destroyed.orderly unlinked mm
        (.blocked sem) Queue.noConfusion
      refine ⟨?_, ?_, ?_, ?_, ?_⟩
      · intro t notCurrent _
        rw [← current] at notCurrent
        rw [retire, dispatch_top, if_neg (by simpa [Kernel.freed] using notCurrent)]
        rw [← destroyed.woken.tops t]
        simp [top, Kernel.freed, notCurrent]
      · intro t _ _
        rw [flags, destroyed.woken.flags]
        simp only [chosen]
      · intro flagged
        rw [flags, destroyed.woken.current_flag disciplined] at flagged
        exact ⟨flagged, Event.noConfusion⟩
      · intro t free flagged
        rw [flags, destroyed.woken.free_flag disciplined free] at flagged
        exact .inl flagged
      · intro sem t waits
        rw [chosen]
        rcases destroyed.woken.waits waits with ⟨other, still⟩ | ⟨owned, ready⟩
        · refine .inl ⟨other, notSignalled sem t, ?_⟩
          rw [queues, if_neg Queue.noConfusion]
          exact still
        · refine .inr ⟨.inl owned, dispatch_pending _ ?_⟩
          rw [Kernel.ready, Kernel.freed]
          have moved : (released.queues.toTail released.core.current .freequeue).elements
              .readyqueue = released.ready := by
            rw [Sequences.toTail_unlinked unlinked, if_neg Queue.noConfusion]
            rfl
          rw [moved]
          exact ready

theorem Effect.indicates (disciplined : Disciplined kernel) {event : Event}
    (effect : Effect kernel event after) : Indicates kernel event after := by
  have quietly : ∀ {left : SequenceKernel}, Uneventful kernel left → event.Keeps →
      event ≠ .resume → Indicates kernel event left := fun uneventful keeps notResume =>
    uneventful.indicates keeps.notDestroyed keeps.notSignalled fun isResume =>
      absurd isResume notResume
  have same := Uneventful.refl kernel
  cases effect with
  | resume outcome =>
      rcases outcome.uneventful disciplined with ⟨uneventful, clears⟩
      have keeps : Event.Keeps .resume := trivial
      exact uneventful.indicates keeps.notDestroyed keeps.notSignalled fun _ => clears
  | clock outcome =>
      exact quietly (outcome.uneventful disciplined).leaveUnlessSwitched trivial Event.noConfusion
  | ignored llegit refused => exact quietly same.leaveKernel trivial Event.noConfusion
  | keyboard llegit accepted outcome =>
      exact quietly (outcome.uneventful disciplined).leaveUnlessSwitched trivial Event.noConfusion
  | getpid result => exact quietly same.finishCall trivial Event.noConfusion
  | gettime result => exact quietly same.finishCall trivial Event.noConfusion
  | fork outcome =>
      exact quietly (outcome.uneventful disciplined).finishCall trivial Event.noConfusion
  | clone function stack outcome =>
      exact quietly (outcome.uneventful disciplined).finishCall trivial Event.noConfusion
  | exit outcome => exact outcome.indicates disciplined
  | sbrk amount outcome =>
      apply quietly _ trivial Event.noConfusion
      apply Uneventful.finishCall
      cases outcome <;> exact same.congr (fun _ => rfl) (fun _ => rfl) fun _ => rfl
  | semInit nSem value outcome =>
      apply quietly _ trivial Event.noConfusion
      apply Uneventful.finishCall
      cases outcome with
      | refused index => exact same
      | busy sem index owned => exact same
      | initialised sem index unowned =>
          apply same.congr
          · simp [top]
          · simp [flag]
          · exact fun _ => rfl
  | semWait nSem outcome =>
      exact quietly (outcome.uneventful disciplined).finishCall trivial Event.noConfusion
  | semSignal nSem outcome => exact outcome.indicates disciplined
  | semDestroy nSem outcome => exact outcome.indicates disciplined
  | read fd buffer count i call =>
      exact quietly (call.coarse.uneventful disciplined).finishCall trivial Event.noConfusion
  | write fd buffer size result => exact quietly same.finishCall trivial Event.noConfusion
  | getStats pid st told =>
      apply quietly _ trivial Event.noConfusion
      cases told with
      | refused error positive => exact same.finishCall
      | stored t found notNegative accepted mm stored =>
          apply Uneventful.finishCall
          apply same.congr
          · intro other
            show topFrame ((kernel.core.setRemaining t).task other).kernelEsp = _
            rw [Core.setRemaining_task]
            rfl
          · intro other
            show ((kernel.core.setRemaining t).task other).semdestroyed = _
            rw [Core.setRemaining_task]
            rfl
          · exact fun _ => rfl
  | niSyscall => exact quietly same.finishCall trivial Event.noConfusion

end Effects

/-! ## From the block to the return -/

section Steps

variable {machine : Machine} {before after : SequenceKernel} {event : Event}

theorem Indicates.ofEntry {core : Core} (entry : Entry event before.core core)
    (indicates : Indicates ⟨core, before.queues⟩ event after) : Indicates before event after := by
  have tops : Kernel.top ⟨core, before.queues⟩ = before.top := by
    funext t
    rw [top, entry.task]
    rfl
  have flags : Kernel.flag ⟨core, before.queues⟩ = before.flag := by
    funext t
    rw [flag, entry.task]
    rfl
  have destroyed : ∀ sem, Kernel.DestroyedBy ⟨core, before.queues⟩ event sem ↔
      before.DestroyedBy event sem := fun sem => and_congr_left' (entry.ownedByCurrent sem)
  have carries : Kernel.CarriesFlag ⟨core, before.queues⟩ event ↔ before.CarriesFlag event := by
    unfold CarriesFlag
    rw [flags, tops, entry.current]
  refine ⟨?_, ?_, ?_, ?_, ?_⟩
  · rw [← tops, ← entry.current]
    exact indicates.tops
  · simp only [← flags, ← entry.current, ← destroyed]
    exact indicates.flags
  · rw [← carries, ← entry.current]
    exact indicates.caller
  · rw [← carries, ← flags]
    exact indicates.free
  · simp only [← destroyed]
    exact indicates.waits

theorem step_indicates (disciplined : Disciplined before)
    (step : (checkedZeos machine).step before event after) : Indicates before event after := by
  rcases step_effect disciplined step with ⟨core, entry, entered, -, effect⟩
  exact (effect.indicates entered).ofEntry entry

theorem SwitchedFrom.pending {core : Core} {queue : List TaskId} {t : TaskId}
    (switched : SwitchedFrom core queue after) (mode : after.core.inKernel = true)
    (member : t ∈ queue) : after.Pending t := by
  cases switched with
  | toNext next rest contents current ready =>
      rw [contents, List.mem_cons] at member
      rcases member with isNext | later
      · exact .inr ⟨mode, current.trans isNext.symm⟩
      · exact .inl (by rwa [ready])
  | toIdle empty =>
      rw [empty] at member
      cases member

theorem step_pending (disciplined : Disciplined before)
    (step : (checkedZeos machine).step before event after) {t : TaskId}
    (ready : t ∈ before.ready) : after.Pending t := by
  rcases step_scheduled disciplined step with ⟨core, entry, scheduled⟩
  have member : t ∈ Kernel.ready ⟨core, before.queues⟩ := ready
  cases scheduled with
  | stays _ _ joined idleTask mode current leftTicks line =>
      left
      rw [line]
      exact List.mem_append_left _ member
  | switches _ _ joined idleTask mode switched =>
      exact switched.pending mode (List.mem_append_left _ member)
  | wakes llegit reader _ idleTask mode switched =>
      exact switched.pending mode (by simp [member])

/-- Flags are set for those only who have been let go and have not gone on. -/
structure Told (kernel : SequenceKernel) : Prop where
  disciplined : Disciplined kernel
  suspended : Suspended kernel
  flagged : ∀ t, kernel.flag t = true → kernel.top t = some .sysSemWait ∧ kernel.Pending t

theorem Kernel.Pending.current {kernel : SequenceKernel} (disciplined : Disciplined kernel)
    (pending : kernel.Pending kernel.core.current) : kernel.core.inKernel = true := by
  rcases pending with ready | switched
  · exact absurd ⟨_, ready⟩ disciplined.currentUnlinked
  · exact switched.1

theorem Kernel.Pending.ready {kernel : SequenceKernel} {t : TaskId} (pending : kernel.Pending t)
    (notCurrent : t ≠ kernel.core.current) : t ∈ kernel.ready :=
  pending.resolve_right fun switched => notCurrent switched.2.symm

theorem Told.clear {kernel : SequenceKernel} (told : Told kernel) {t : TaskId}
    (userMode : kernel.UserMode t) : kernel.flag t = false := by
  apply Bool.eq_false_iff.mpr
  intro flagged
  have pending := (told.flagged t flagged).2
  rw [← userMode.1] at pending
  have switched := pending.current told.disciplined
  rw [userMode.2] at switched
  cases switched

theorem Event.Enabled.isResume {core : Core} (enabled : event.Enabled core)
    (inKernel : core.inKernel = true) : event = .resume := by
  by_contra notResume
  have mode := enabled.2
  rw [if_neg notResume, inKernel] at mode
  cases mode.1

theorem Told.not_carries (told : Told before) (enabled : event.Enabled before.core) :
    ¬before.CarriesFlag event := by
  rintro ⟨flagged, notWaiting⟩
  rcases told.flagged _ flagged with ⟨waits, pending⟩
  exact notWaiting (enabled.isResume (pending.current told.disciplined)) waits

theorem Told.step (told : Told before) (step : (checkedZeos machine).step before event after) :
    Told after where
  disciplined := execute_disciplined told.disciplined step.1 step.2
  suspended := step_suspended told.disciplined told.suspended step
  flagged t flagged := by
    have indicates := step_indicates told.disciplined step
    have notCarries := told.not_carries step.1
    have notFree : ∀ {t}, before.flag t = true → t ∉ before.queues.elements .freequeue := by
      intro t flagged free
      rcases (told.flagged t flagged).2 with ready | ⟨-, current⟩
      · exact told.disciplined.placed.not_elsewhere free Queue.noConfusion ready
      · exact told.disciplined.currentUnlinked ⟨_, current ▸ free⟩
    by_cases notCurrent : t = before.core.current
    · rw [notCurrent] at flagged
      exact absurd (indicates.caller flagged) notCarries
    · by_cases free : t ∈ before.queues.elements .freequeue
      · rcases indicates.free t free flagged with flagged | carries
        · exact absurd free (notFree flagged)
        · exact absurd carries notCarries
      · rw [indicates.tops t notCurrent free]
        rcases (indicates.flags t notCurrent free).mp flagged with old | ⟨sem, destroyed, waits⟩
        · rcases told.flagged t old with ⟨top, pending⟩
          exact ⟨top, step_pending told.disciplined step (pending.ready notCurrent)⟩
        · refine ⟨told.suspended _ t waits, ?_⟩
          rcases indicates.waits sem t waits with ⟨notDestroyed, -, -⟩ | ⟨-, pending⟩
          · exact absurd destroyed notDestroyed
          · exact pending

theorem boot_told (machine : Machine) : Told ⟨machine.bootCore 0 1, bootSequences⟩ := by
  refine ⟨boot_disciplined machine, boot_suspended machine, fun t flagged => ?_⟩
  rw [flag, bootCore_semdestroyed] at flagged
  cases flagged

/-- `t` has been let go and will learn whether the semaphore is gone. -/
structure Ending (kernel : SequenceKernel) (t : TaskId) (destroyed : Bool) : Prop where
  top : kernel.top t = some .sysSemWait
  pending : kernel.Pending t
  flag : kernel.flag t = destroyed

theorem waiting_step (told : Told before) (step : (checkedZeos machine).step before event after)
    {sem : SemId} {t : TaskId} (waits : t ∈ before.queues.elements (.blocked sem)) :
    ¬before.DestroyedBy event sem ∧ ¬before.SignalledBy event sem t ∧
        t ∈ after.queues.elements (.blocked sem) ∨
      before.DestroyedBy event sem ∧ ¬before.SignalledBy event sem t ∧ Ending after t true ∨
      ¬before.DestroyedBy event sem ∧ before.SignalledBy event sem t ∧ Ending after t false := by
  have indicates := step_indicates told.disciplined step
  have notCurrent : t ≠ before.core.current :=
    fun same => told.disciplined.currentUnlinked ⟨_, same ▸ waits⟩
  have notFree : t ∉ before.queues.elements .freequeue :=
    told.disciplined.placed.not_elsewhere waits Queue.noConfusion
  have unflagged : ¬before.flag t = true := by
    intro flagged
    have ready := (told.flagged t flagged).2.ready notCurrent
    exact told.disciplined.placed.not_elsewhere waits Queue.noConfusion ready
  have top : after.top t = some .sysSemWait :=
    (indicates.tops t notCurrent notFree).trans (told.suspended _ t waits)
  have flags := indicates.flags t notCurrent notFree
  have apart : before.DestroyedBy event sem → ¬before.SignalledBy event sem t := by
    rintro ⟨-, isExit | ⟨nSem, isDestroy, -⟩⟩ ⟨-, nSem', isSignal, -⟩
    · exact absurd (isExit.symm.trans isSignal) Event.noConfusion
    · exact absurd (isDestroy.symm.trans isSignal) Event.noConfusion
  rcases indicates.waits sem t waits with still | ⟨destroyed | signalled, pending⟩
  · exact .inl still
  · exact .inr (.inl ⟨destroyed, apart destroyed, top, pending,
      flags.mpr (.inr ⟨sem, destroyed, waits⟩)⟩)
  · have notDestroyed : ¬before.DestroyedBy event sem :=
      fun destroyed => apart destroyed signalled
    refine .inr (.inr ⟨notDestroyed, signalled, top, pending, ?_⟩)
    apply Bool.eq_false_iff.mpr
    intro flagged
    rcases flags.mp flagged with old | ⟨other, destroyed, elsewhere⟩
    · exact unflagged old
    · cases told.disciplined.placed.apart waits elsewhere
      exact notDestroyed destroyed

theorem Ending.step (told : Told before) {t : TaskId} {destroyed : Bool}
    (ending : Ending before t destroyed) (step : (checkedZeos machine).step before event after) :
    before.core.current ≠ t ∧ Ending after t destroyed ∨
      after.UserMode t ∧
        (after.core.task t).context.eax = if destroyed = true then -einval else 0 := by
  by_cases isCurrent : before.core.current = t
  · right
    have inKernel : before.core.inKernel = true := by
      apply Kernel.Pending.current told.disciplined
      rw [isCurrent]
      exact ending.pending
    have isResume := step.1.isResume inKernel
    subst isResume
    rcases step_effect told.disciplined step with ⟨core, entry, entered, -, effect⟩
    have task : Kernel.currentTask ⟨core, before.queues⟩ =
        { before.core.task t with pStats := (core.task t).pStats } := by
      show core.task core.current = _
      rw [entry.current, isCurrent]
      exact entry.task t
    have top := ending.top
    have flag := ending.flag
    unfold Kernel.top at top
    unfold Kernel.flag at flag
    have current : core.current = t := entry.current.trans isCurrent
    cases effect with
    | resume outcome =>
        cases outcome with
        | idles none => cases none _ (by rw [task]; exact top)
        | interrupt frame here kind =>
            rw [task, top] at here
            cases here
            simp at kind
        | returns frame here kind =>
            rw [task, top] at here
            cases here
            simp at kind
        | reads buffer count i here =>
            rw [task, top] at here
            cases here
        | waited here =>
            refine ⟨⟨?_, ?_⟩, ?_⟩
            · simpa [finishCall, mapCore] using current
            · simp [finishCall, mapCore]
            · rw [← current, task]
              have eax := finishCall_eax ⟨core.setSemdestroyed core.current false, before.queues⟩
                (if destroyed = true then -einval else 0)
              dsimp only
              rw [flag]
              simpa using eax
  · left
    have ready := ending.pending.ready (Ne.symm isCurrent)
    have indicates := step_indicates told.disciplined step
    have notFree : t ∉ before.queues.elements .freequeue :=
      told.disciplined.placed.not_elsewhere ready Queue.noConfusion
    refine ⟨isCurrent, (indicates.tops t (Ne.symm isCurrent) notFree).trans ending.top,
      step_pending told.disciplined step ready, ?_⟩
    rw [← ending.flag, Bool.eq_iff_iff, indicates.flags t (Ne.symm isCurrent) notFree]
    refine or_iff_left ?_
    rintro ⟨sem, -, waits⟩
    exact told.disciplined.placed.not_elsewhere waits Queue.noConfusion ready

end Steps

/-- The wait ended with the semaphore. -/
def EndedByDestroy (sem : SemId) (t : TaskId) (history : List Recorded) : Prop :=
  ∃ transition ∈ history, t ∈ transition.before.queues.elements (.blocked sem) ∧
    transition.before.DestroyedBy transition.label sem

/-- The wait ended by a signal. -/
def EndedBySignal (sem : SemId) (t : TaskId) (history : List Recorded) : Prop :=
  ∃ transition ∈ history, transition.before.SignalledBy transition.label sem t

section Runs

variable {machine : Machine} {first last : SequenceKernel} {history : List Recorded}
  {t : TaskId} {sem : SemId} {result : Int}

theorem not_endedByDestroy_cons {transition : Recorded} {rest : List Recorded}
    (here : ¬transition.before.DestroyedBy transition.label sem ∨
      t ∉ transition.before.queues.elements (.blocked sem))
    (later : ¬EndedByDestroy sem t rest) : ¬EndedByDestroy sem t (transition :: rest) := by
  rintro ⟨ended, member, waits, destroyed⟩
  rcases List.mem_cons.mp member with same | old
  · subst same
    rcases here with not | absent
    · exact not destroyed
    · exact absent waits
  · exact later ⟨ended, old, waits, destroyed⟩

theorem not_endedBySignal_cons {transition : Recorded} {rest : List Recorded}
    (here : ¬transition.before.SignalledBy transition.label sem t)
    (later : ¬EndedBySignal sem t rest) : ¬EndedBySignal sem t (transition :: rest) := by
  rintro ⟨ended, member, signalled⟩
  rcases List.mem_cons.mp member with same | old
  · subst same
    exact here signalled
  · exact later ⟨ended, old, signalled⟩

theorem Ending.not_waiting {kernel : SequenceKernel} {destroyed : Bool} (told : Told kernel)
    (ending : Ending kernel t destroyed) : t ∉ kernel.queues.elements (.blocked sem) := by
  intro waits
  have notCurrent : t ≠ kernel.core.current :=
    fun same => told.disciplined.currentUnlinked ⟨_, same ▸ waits⟩
  exact told.disciplined.placed.not_elsewhere waits Queue.noConfusion
    (ending.pending.ready notCurrent)

theorem Ending.away {kernel : SequenceKernel} {destroyed : Bool} (told : Told kernel)
    (ending : Ending kernel t destroyed) : ¬kernel.UserMode t := by
  rintro ⟨current, mode⟩
  have pending := ending.pending
  rw [← current] at pending
  have inKernel := pending.current told.disciplined
  rw [mode] at inKernel
  cases inKernel

theorem ending_run (run : (checkedZeos machine).Run first history last) (told : Told first)
    {destroyed : Bool} (ending : Ending first t destroyed) (returns : Returns t result history) :
    result = (if destroyed = true then -einval else 0) ∧ ¬EndedByDestroy sem t history ∧
      ¬EndedBySignal sem t history := by
  induction returns generalizing first with
  | @returns transition here eax =>
      rcases run.of_cons with ⟨same, step, -⟩
      subst same
      have absent : t ∉ transition.before.queues.elements (.blocked sem) := ending.not_waiting told
      refine ⟨?_, not_endedByDestroy_cons (.inr absent) (by rintro ⟨_, none, -⟩; cases none),
        not_endedBySignal_cons (fun signalled => absent (List.mem_of_head? signalled.1))
          (by rintro ⟨_, none, -⟩; cases none)⟩
      rcases ending.step told step with ⟨-, still⟩ | ⟨-, value⟩
      · exact absurd here (still.away (told.step step))
      · exact eax.symm.trans value
  | @pends transition rest away later induction =>
      rcases run.of_cons with ⟨same, step, rest'⟩
      subst same
      have absent : t ∉ transition.before.queues.elements (.blocked sem) := ending.not_waiting told
      rcases ending.step told step with ⟨-, still⟩ | ⟨here, -⟩
      · rcases induction rest' (told.step step) still with ⟨value, notDestroyed, notSignalled⟩
        exact ⟨value, not_endedByDestroy_cons (.inr absent) notDestroyed,
          not_endedBySignal_cons (fun signalled => absent (List.mem_of_head? signalled.1))
            notSignalled⟩
      · exact absurd here away

theorem blocked_away {kernel : SequenceKernel} (told : Told kernel)
    (waits : t ∈ kernel.queues.elements (.blocked sem)) : ¬kernel.UserMode t := by
  rintro ⟨current, -⟩
  exact told.disciplined.currentUnlinked ⟨_, current ▸ waits⟩

theorem waiting_run (run : (checkedZeos machine).Run first history last) (told : Told first)
    (waits : t ∈ first.queues.elements (.blocked sem)) (returns : Returns t result history) :
    result = -einval ∧ EndedByDestroy sem t history ∧ ¬EndedBySignal sem t history ∨
      result = 0 ∧ EndedBySignal sem t history ∧ ¬EndedByDestroy sem t history := by
  induction returns generalizing first with
  | @returns transition here eax =>
      rcases run.of_cons with ⟨same, step, -⟩
      subst same
      rcases waiting_step told step waits with ⟨-, -, still⟩ | ⟨-, -, ending⟩ | ⟨-, -, ending⟩
      · exact absurd here (blocked_away (told.step step) still)
      · exact absurd here (ending.away (told.step step))
      · exact absurd here (ending.away (told.step step))
  | @pends transition rest away later induction =>
      rcases run.of_cons with ⟨same, step, rest'⟩
      subst same
      have told' := told.step step
      rcases waiting_step told step waits with ⟨notDestroyed, notSignalled, still⟩ |
          ⟨destroyed, notSignalled, ending⟩ | ⟨notDestroyed, signalled, ending⟩
      · rcases induction rest' told' still with
          ⟨value, ⟨ended, member, how⟩, other⟩ | ⟨value, ⟨ended, member, how⟩, other⟩
        · exact .inl ⟨value, ⟨ended, List.mem_cons_of_mem _ member, how⟩,
            not_endedBySignal_cons notSignalled other⟩
        · exact .inr ⟨value, ⟨ended, List.mem_cons_of_mem _ member, how⟩,
            not_endedByDestroy_cons (.inl notDestroyed) other⟩
      · rcases @ending_run machine transition.after last rest t sem result rest' told' true ending
          later with ⟨value, -, other⟩
        exact .inl ⟨value, ⟨transition, List.mem_cons_self, waits, destroyed⟩,
          not_endedBySignal_cons notSignalled other⟩
      · rcases @ending_run machine transition.after last rest t sem result rest' told' false ending
          later with ⟨value, other, -⟩
        exact .inr ⟨value, ⟨transition, List.mem_cons_self, signalled⟩,
          not_endedByDestroy_cons (.inl notDestroyed) other⟩

end Runs

theorem passes_eax {machine : Machine} {before after : SequenceKernel} (told : Told before)
    {nSem : Int} {sem : SemId} (index : semIndex nSem = some sem)
    (owned : (before.core.semArray sem).ownerPid ≠ -1)
    (positive : 0 < (before.core.semArray sem).counter)
    (step : (checkedZeos machine).step before (.semWait nSem) after) :
    (after.core.task before.core.current).context.eax = 0 := by
  have userMode : before.UserMode before.core.current :=
    ⟨rfl, step.1.inUserMode Event.noConfusion⟩
  have clear := told.clear userMode
  rcases step_effect told.disciplined step with ⟨core, entry, entered, -, effect⟩
  cases effect with
  | semWait _ outcome =>
      cases outcome with
      | refused unusable => exact absurd (entry.semArray ▸ unusable sem index) owned
      | blocks other index' owned' exhausted =>
          rw [index] at index'
          cases index'
          rw [entry.semArray] at exhausted
          omega
      | passes other index' owned' positive' =>
          have flag : (Kernel.currentTask ⟨core, before.queues⟩).semdestroyed = false := by
            show (core.task core.current).semdestroyed = false
            rw [entry.current, entry.task]
            exact clear
          rw [flag, ← entry.current]
          have eax := finishCall_eax ⟨(core.setCounter other
            ((core.semArray other).counter - 1)).setSemdestroyed core.current false,
            before.queues⟩ 0
          simpa using eax

theorem Told.child {machine : Machine} {before after : SequenceKernel} {event : Event}
    (told : Told before) (step : (checkedZeos machine).step before event after) {t : TaskId}
    (free : t ∈ before.queues.elements .freequeue) : after.flag t = false := by
  apply Bool.eq_false_iff.mpr
  intro flagged
  rcases (step_indicates told.disciplined step).free t free flagged with flagged | carries
  · rcases (told.flagged t flagged).2 with ready | ⟨-, current⟩
    · exact told.disciplined.placed.not_elsewhere free Queue.noConfusion ready
    · exact told.disciplined.currentUnlinked ⟨_, current ▸ free⟩
  · exact told.not_carries step.1 carries

/-- A wait that blocks reports the end of its semaphore exactly when that is what
ended it, and otherwise a signal did. In user mode no flag is set, so that nothing
is reported twice, to other waits or to children. -/
theorem destroyIndicated {machine : Machine} {history : List (Transition PointerKernel Event)}
    {last : PointerKernel} (reaches : (zeos machine).Reaches history last) :
    (last.core.inKernel = false → (last.core.task last.core.current).semdestroyed = false) ∧
      (∀ transition ∈ record history, ∀ t ∈ transition.before.queues.elements .freequeue,
        (transition.after.core.task t).semdestroyed = false) ∧
      (∀ transition ∈ record history, ∀ nSem sem, transition.label = .semWait nSem →
        semIndex nSem = some sem → (transition.before.core.semArray sem).ownerPid ≠ -1 →
        0 < (transition.before.core.semArray sem).counter →
        (transition.after.core.task transition.before.core.current).context.eax = 0) ∧
      ∀ earlier rest later : List Recorded, ∀ call : Recorded, ∀ nSem sem result,
        record history = earlier ++ (call :: rest) ++ later → call.label = .semWait nSem →
        call.before.core.current ∈ call.after.queues.elements (.blocked sem) →
        Returns call.before.core.current result (call :: rest) →
        (result = -einval ↔ EndedByDestroy sem call.before.core.current rest) ∧
          (result = 0 ↔ EndedBySignal sem call.before.core.current rest) ∧
          (result = -einval ∨ result = 0) := by
  rcases (run_toSequences reaches).2 with ⟨first, start, run⟩
  rw [init_eq start] at run
  rw [show history.map _ = record history from rfl] at run
  have along := run.along (boot_told machine) fun _ _ step told => told.step step
  have told := run.invariant (boot_told machine) fun _ _ step told => told.step step
  refine ⟨?_, ?_, ?_, ?_⟩
  · intro mode
    exact told.clear ⟨rfl, mode⟩
  · intro transition member t free
    exact (along transition member).1.child (run.step_of_mem member) free
  · intro transition member nSem sem isWait index owned positive
    have step := run.step_of_mem member
    rw [isWait] at step
    exact passes_eax (along transition member).1 index owned positive step
  · intro earlier rest later call nSem sem result parts isWait blocked returns
    have member : call ∈ record history := by
      rw [parts]
      simp
    rw [parts, List.append_assoc, List.cons_append] at run
    rcases run.around with ⟨-, step, after⟩
    rcases after.split with ⟨returned, waiting, -⟩
    have told' := (along call member).2
    have pending : Returns call.before.core.current result rest := by
      cases returns with
      | returns here => exact absurd here (blocked_away told' blocked)
      | pends away later => exact later
    rcases waiting_run waiting told' blocked pending with ⟨value, ended, other⟩ |
        ⟨value, ended, other⟩
    · refine ⟨iff_of_true value ended, iff_of_false ?_ other, .inl value⟩
      rw [value]
      decide
    · refine ⟨iff_of_false ?_ other, iff_of_true value ended, .inr value⟩
      rw [value]
      decide

def destroyedWait : List Event :=
  [.semInit 0 0, .clone 1048576 1081344, .clone 1048576 1081344, .read 0 1081344 1 0, .resume,
    .semWait 0, .resume, .keyboard 30, .resume, .semDestroy 0, .read 0 1081344 1 0, .resume, .exit,
    .resume]

theorem destroyIndicated_wait :
    ∃ history last earlier call rest, (zeos Machine.sample).Reaches history last ∧
      record history = earlier ++ (call :: rest) ++ [] ∧ call.label = .semWait 0 ∧
      Returns 2 (-einval) (call :: rest) ∧ EndedByDestroy 0 2 rest ∧ ¬EndedBySignal 0 2 rest := by
  have computed : (replay destroyedWait ⟨Machine.sample.bootCore 0 1, bootLinks⟩).any (fun run =>
      passesAt 5 (fun call rest => call.label = .semWait 0 ∧ call.before.core.current = 2 ∧
        2 ∈ call.after.queues.elements (.blocked 0) ∧ Returns 2 (-einval) (call :: rest))
          (record run.1)) = true := by
    decide +kernel
  rcases reaches_of_replay computed with ⟨history, last, reaches, found⟩
  rcases split_of_passesAt found with ⟨call, rest, split, tested⟩
  rcases of_decide_eq_true tested with ⟨isWait, current, blocked, returns⟩
  have parts := split.trans (List.append_nil _).symm
  refine ⟨history, last, _, call, rest, reaches, parts, isWait, returns, ?_⟩
  rw [← current] at blocked returns ⊢
  have told := (destroyIndicated reaches).2.2.2 _ rest [] call 0 0 _ parts isWait blocked returns
  refine ⟨told.1.mp rfl, fun signalled => ?_⟩
  exact absurd (told.2.1.mpr signalled) (by decide)

end Zeos
