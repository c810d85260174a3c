import Zeos.Processes

/-! # Semaphores

A semaphore by itself, as a counter with an owner and a sequence of waiters, and
the kernel's steps as steps of each of its semaphores. From the steps follow
the laws of whole runs: units are neither lost nor duplicated, and waiters are
served in order.
-/

namespace Zeos

open Foundation Kernel

/-! ## The abstract semaphore -/

structure SemView where
  counter : Int
  ownerPid : Int
  waiters : List TaskId

def Event.waitsFor (event : Event) (sem : SemId) : Bool :=
  match event with
  | .semWait nSem => semIndex nSem = some sem
  | _ => false

def Event.signals (event : Event) (sem : SemId) : Bool :=
  match event with
  | .semSignal nSem => semIndex nSem = some sem
  | _ => false

/-- What a step of task `caller` with process number `pid` does to a
semaphore. -/
inductive SemStep (sem : SemId) (event : Event) (caller : TaskId) (pid : Int) :
    SemView → SemView → Prop
  | untouched (view : SemView)
      (uncalled : view.ownerPid ≠ -1 →
        event.waitsFor sem = false ∧ event.signals sem = false) :
      SemStep sem event caller pid view view
  | passes (counter owner : Int) (waiters : List TaskId) (wait : event.waitsFor sem = true)
      (positive : 0 < counter) :
      SemStep sem event caller pid ⟨counter, owner, waiters⟩ ⟨counter - 1, owner, waiters⟩
  | blocks (counter owner : Int) (waiters : List TaskId) (wait : event.waitsFor sem = true)
      (exhausted : counter ≤ 0) :
      SemStep sem event caller pid ⟨counter, owner, waiters⟩
        ⟨counter, owner, waiters ++ [caller]⟩
  | counts (counter owner : Int) (signal : event.signals sem = true) :
      SemStep sem event caller pid ⟨counter, owner, []⟩ ⟨counter + 1, owner, []⟩
  | wakes (counter owner : Int) (first : TaskId) (rest : List TaskId)
      (signal : event.signals sem = true) :
      SemStep sem event caller pid ⟨counter, owner, first :: rest⟩ ⟨counter, owner, rest⟩
  | initialised (counter : Int) (nSem : Int) (value : Nat)
      (init : event = .semInit nSem value) (index : semIndex nSem = some sem) :
      SemStep sem event caller pid ⟨counter, -1, []⟩ ⟨toSigned value, pid, []⟩
  | destroyed (counter owner : Int) (waiters : List TaskId) (owned : owner ≠ -1) :
      SemStep sem event caller pid ⟨counter, owner, waiters⟩ ⟨counter, -1, []⟩

/-! ## The kernel's semaphores -/

namespace Kernel

def semView (kernel : SequenceKernel) (sem : SemId) : SemView where
  counter := (kernel.core.semArray sem).counter
  ownerPid := (kernel.core.semArray sem).ownerPid
  waiters := kernel.queues.elements (.blocked sem)

theorem semView_congr {kernel other : SequenceKernel} {sem : SemId}
    (semaphore : other.core.semArray sem = kernel.core.semArray sem)
    (waiters : other.queues.elements (.blocked sem) = kernel.queues.elements (.blocked sem)) :
    other.semView sem = kernel.semView sem := by
  rw [semView, semView, semaphore, waiters]

@[simp] theorem finishCall_queues (outcome : SequenceKernel × Option Int) :
    (finishCall outcome).queues = outcome.1.queues := by
  unfold finishCall
  split <;> rfl

@[simp] theorem finishCall_semArray (outcome : SequenceKernel × Option Int) :
    (finishCall outcome).core.semArray = outcome.1.core.semArray := by
  unfold finishCall
  split <;> rfl

@[simp] theorem finishCall_semView (outcome : SequenceKernel × Option Int) (sem : SemId) :
    (finishCall outcome).semView sem = outcome.1.semView sem :=
  semView_congr (by simp) (by simp)

@[simp] theorem leaveUnlessSwitched_semView (kernel : SequenceKernel) (sem : SemId) :
    kernel.leaveUnlessSwitched.semView sem = kernel.semView sem := by
  unfold leaveUnlessSwitched
  split <;> rfl

end Kernel

section Effects

variable {kernel after : SequenceKernel} {sem : SemId}

/-- The step of semaphore `sem` in a step of the kernel. -/
abbrev Steps (sem : SemId) (event : Event) (kernel after : SequenceKernel) : Prop :=
  SemStep sem event kernel.core.current kernel.currentTask.pid (kernel.semView sem)
    (after.semView sem)

theorem Steps.of_same {event : Event} (other : event.waitsFor sem = false)
    (unsignalled : event.signals sem = false)
    (same : after.semView sem = kernel.semView sem) : Steps sem event kernel after := by
  unfold Steps
  rw [same]
  exact .untouched _ fun _ => ⟨other, unsignalled⟩

theorem Steps.of_refused {event : Event} (unusable : (kernel.core.semArray sem).ownerPid = -1)
    (same : after.semView sem = kernel.semView sem) : Steps sem event kernel after := by
  unfold Steps
  rw [same]
  exact .untouched _ fun owned => absurd unusable owned

theorem dispatch_semView (orderly : Orderly kernel) (frames : List Frame) :
    (kernel.dispatch frames).semView sem = kernel.semView sem :=
  semView_congr (by simp) (dispatch_elements orderly.placed frames Queue.noConfusion)

theorem toTail_semView {core : Core} {t : TaskId} {queue : Queue}
    (semaphore : core.semArray sem = kernel.core.semArray sem)
    (notWaiting : t ∉ kernel.queues.elements (.blocked sem)) (different : .blocked sem ≠ queue) :
    Kernel.semView ⟨core, kernel.queues.toTail t queue⟩ sem = kernel.semView sem :=
  semView_congr semaphore (Sequences.toTail_elements_of_ne different notWaiting)

theorem current_not_waiting (disciplined : Disciplined kernel) :
    kernel.core.current ∉ kernel.queues.elements (.blocked sem) := fun waiting =>
  disciplined.currentUnlinked ⟨_, waiting⟩

theorem parkTail_semView (disciplined : Disciplined kernel) {queue : Queue}
    (frames : List Frame) (different : .blocked sem ≠ queue) :
    (kernel.parkTail queue frames).semView sem = kernel.semView sem :=
  semView_congr (by simp) (by
    rw [parkTail_elements disciplined frames Queue.noConfusion, if_neg different])

theorem parkFront_semView (disciplined : Disciplined kernel) {queue : Queue}
    (frames : List Frame) (different : .blocked sem ≠ queue) :
    (kernel.parkFront queue frames).semView sem = kernel.semView sem :=
  semView_congr (by simp) (by
    rw [parkFront_elements disciplined frames Queue.noConfusion, if_neg different])

theorem ReadOutcome.semView (disciplined : Disciplined kernel)
    {outcome : SequenceKernel × Option Int} (read : ReadOutcome kernel outcome) :
    outcome.1.semView sem = kernel.semView sem := by
  cases read with
  | finished ram circbuff readers result => rfl
  | waits ram circbuff readers buffer count i =>
      exact parkFront_semView (disciplined.withInput ram circbuff readers) _ Queue.noConfusion
  | queued ram circbuff readers =>
      exact parkTail_semView (disciplined.withInput ram circbuff readers) _ Queue.noConfusion

theorem KeyOutcome.semView (disciplined : Disciplined kernel) {result : UInt8}
    (key : KeyOutcome kernel result after) : after.semView sem = kernel.semView sem := by
  cases key with
  | buffered reader rest waiting incomplete => rfl
  | wakes reader rest waiting complete =>
      have member : reader ∈ kernel.queues.elements .keyboardqueue := by simp [waiting]
      rw [parkTail_semView (reader_disciplined disciplined member _ _) _ Queue.noConfusion]
      exact semView_congr (by simp [Core.withInput]) (Sequences.toFront_elements_of_ne
        Queue.noConfusion (disciplined.placed.not_elsewhere member Queue.noConfusion))

theorem ClockOutcome.semView (disciplined : Disciplined kernel)
    (clock : ClockOutcome kernel after) : after.semView sem = kernel.semView sem := by
  cases clock with
  | continues left => rfl
  | idles expired idle => exact dispatch_semView disciplined.toOrderly _
  | preempts expired notIdle => exact parkTail_semView disciplined _ Queue.noConfusion

theorem ResumeOutcome.semView (disciplined : Disciplined kernel)
    (resumed : ResumeOutcome kernel after) : after.semView sem = kernel.semView sem := by
  cases resumed with
  | idles top => rfl
  | interrupt frame top kind => rfl
  | returns frame top kind => exact finishCall_semView _ _
  | waited top => exact (finishCall_semView _ _).trans (semView_congr (by simp) rfl)
  | reads buffer count i top outcome loop =>
      exact (finishCall_semView _ _).trans (loop.coarse.semView disciplined)

theorem ForkOutcome.semView (disciplined : Disciplined kernel) {outcome : SequenceKernel × Int}
    (forked : ForkOutcome kernel outcome) : outcome.1.semView sem = kernel.semView sem := by
  cases forked with
  | full empty => rfl
  | noMemory child rest free mm outOfFrames =>
      have member : child ∈ kernel.queues.elements .freequeue := by simp [free]
      exact semView_congr (by simp [forkFailed])
        (List.erase_of_not_mem (disciplined.placed.not_elsewhere member Queue.noConfusion))
  | forked child rest free mm copied =>
      have member : child ∈ kernel.queues.elements .freequeue := by simp [free]
      exact toTail_semView (by simp) (disciplined.placed.not_elsewhere member Queue.noConfusion)
        Queue.noConfusion

theorem CloneOutcome.semView (disciplined : Disciplined kernel) {function stack : Nat}
    {outcome : SequenceKernel × Int} (cloned : CloneOutcome kernel function stack outcome) :
    outcome.1.semView sem = kernel.semView sem := by
  cases cloned with
  | refused error negative => rfl
  | cloned child rest free =>
      have member : child ∈ kernel.queues.elements .freequeue := by simp [free]
      exact toTail_semView (by simp [Core.cloneTo])
        (disciplined.placed.not_elsewhere member Queue.noConfusion) Queue.noConfusion

theorem ExitOutcome.steps (disciplined : Disciplined kernel) (exited : ExitOutcome kernel after) :
    Steps sem .exit kernel after := by
  cases exited with
  | exited released destroyed mm freed =>
      have unlinked := destroyed.woken.current_unlinked disciplined
      have view : (released.retire mm).semView sem = released.semView sem :=
        semView_congr (by simp) (by
          rw [retire_elements destroyed.orderly unlinked mm Queue.noConfusion, if_neg
            Queue.noConfusion])
      by_cases owned : kernel.OwnedByCurrent sem
      · have gone : released.semView sem = ⟨(kernel.core.semArray sem).counter, -1, []⟩ := by
          rw [semView, destroyed.gone owned, destroyed.woken.emptied owned]
        rw [Steps, view, gone]
        exact .destroyed _ _ _ owned.1
      · refine .of_same rfl rfl (view.trans ?_)
        exact semView_congr (destroyed.kept owned) (destroyed.woken.blocked owned)

theorem WaitOutcome.steps (disciplined : Disciplined kernel) {nSem : Int}
    {outcome : SequenceKernel × Option Int} (waited : WaitOutcome kernel nSem outcome) :
    Steps sem (.semWait nSem) kernel outcome.1 := by
  have other : ∀ {called}, semIndex nSem = some called → sem ≠ called →
      (Event.semWait nSem).waitsFor sem = false := by
    intro called index different
    simp [Event.waitsFor, index, Ne.symm different]
  cases waited with
  | refused unusable =>
      by_cases called : semIndex nSem = some sem
      · exact .of_refused (unusable sem called) rfl
      · exact .of_same (by simp [Event.waitsFor, called]) rfl rfl
  | passes called index owned positive =>
      by_cases same : sem = called
      · subst same
        have view : Kernel.semView ⟨(kernel.core.setCounter sem
            ((kernel.core.semArray sem).counter - 1)).setSemdestroyed kernel.core.current false,
            kernel.queues⟩ sem = ⟨(kernel.core.semArray sem).counter - 1,
              (kernel.core.semArray sem).ownerPid, kernel.queues.elements (.blocked sem)⟩ := by
          simp [semView]
        rw [Steps, view]
        exact .passes _ _ _ (by simp [Event.waitsFor, index]) positive
      · exact .of_same (other index same) rfl (semView_congr (by simp [same]) rfl)
  | blocks called index owned exhausted =>
      by_cases same : sem = called
      · subst same
        have view : (kernel.parkTail (.blocked sem) [.sysSemWait]).semView sem =
            ⟨(kernel.core.semArray sem).counter, (kernel.core.semArray sem).ownerPid,
              kernel.queues.elements (.blocked sem) ++ [kernel.core.current]⟩ := by
          rw [semView, parkTail_elements disciplined _ Queue.noConfusion, if_pos rfl]
          simp
        rw [Steps, view]
        exact .blocks _ _ _ (by simp [Event.waitsFor, index]) exhausted
      · refine .of_same (other index same) rfl (parkTail_semView disciplined _ ?_)
        exact fun equal => same (by cases equal; rfl)

theorem SignalOutcome.steps (disciplined : Disciplined kernel) {nSem : Int}
    {outcome : SequenceKernel × Int} (signalled : SignalOutcome kernel nSem outcome) :
    Steps sem (.semSignal nSem) kernel outcome.1 := by
  have other : ∀ {called}, semIndex nSem = some called → sem ≠ called →
      (Event.semSignal nSem).signals sem = false := by
    intro called index different
    simp [Event.signals, index, Ne.symm different]
  cases signalled with
  | refused unusable =>
      by_cases called : semIndex nSem = some sem
      · exact .of_refused (unusable sem called) rfl
      · exact .of_same rfl (by simp [Event.signals, called]) rfl
  | counts called index owned empty =>
      by_cases same : sem = called
      · subst same
        have before : kernel.semView sem =
            ⟨(kernel.core.semArray sem).counter, (kernel.core.semArray sem).ownerPid, []⟩ := by
          rw [semView, empty]
        have view : Kernel.semView ⟨kernel.core.setCounter sem
            ((kernel.core.semArray sem).counter + 1), kernel.queues⟩ sem =
            ⟨(kernel.core.semArray sem).counter + 1, (kernel.core.semArray sem).ownerPid, []⟩ := by
          simp [semView, empty]
        rw [Steps, before, view]
        exact .counts _ _ (by simp [Event.signals, index])
      · exact .of_same rfl (other index same) (semView_congr (by simp [same]) rfl)
  | wakes called index owned first rest waiting =>
      have member : first ∈ kernel.queues.elements (.blocked called) := by simp [waiting]
      by_cases same : sem = called
      · subst same
        have before : kernel.semView sem = ⟨(kernel.core.semArray sem).counter,
            (kernel.core.semArray sem).ownerPid, first :: rest⟩ := by
          rw [semView, waiting]
        have view : (kernel.wake first).semView sem = ⟨(kernel.core.semArray sem).counter,
            (kernel.core.semArray sem).ownerPid, rest⟩ := by
          simp [semView, wake, Sequences.toTail, waiting]
        rw [Steps, before, view]
        exact .wakes _ _ _ _ (by simp [Event.signals, index])
      · refine .of_same rfl (other index same) ?_
        have elsewhere : Queue.blocked sem ≠ .blocked called := fun equal =>
          same (by cases equal; rfl)
        exact toTail_semView (by simp) (disciplined.placed.not_elsewhere member elsewhere)
          Queue.noConfusion

theorem InitOutcome.steps (orderly : Orderly kernel) {nSem : Int} {value : Nat}
    {outcome : SequenceKernel × Int} (initialised : InitOutcome kernel nSem value outcome) :
    Steps sem (.semInit nSem value) kernel outcome.1 := by
  cases initialised with
  | refused index => exact .of_same rfl rfl rfl
  | busy called index owned => exact .of_same rfl rfl rfl
  | initialised called index unowned =>
      by_cases same : sem = called
      · subst same
        have before : kernel.semView sem = ⟨(kernel.core.semArray sem).counter, -1, []⟩ := by
          rw [semView, unowned, orderly.unowned sem unowned]
        have view : Kernel.semView ⟨(kernel.core.setCounter sem (toSigned value)).setOwner sem
            kernel.currentTask.pid, kernel.queues⟩ sem =
            ⟨toSigned value, kernel.currentTask.pid, []⟩ := by
          simp [semView, orderly.unowned sem unowned]
        rw [Steps, before, view]
        exact .initialised _ nSem value rfl index
      · exact .of_same rfl rfl (semView_congr (by simp [same]) rfl)

theorem DestroyOutcome.steps {nSem : Int} {outcome : SequenceKernel × Int}
    (destroyed : DestroyOutcome kernel nSem outcome) :
    Steps sem (.semDestroy nSem) kernel outcome.1 := by
  cases destroyed with
  | refused unusable => exact .of_same rfl rfl rfl
  | notOwner called index owned other => exact .of_same rfl rfl rfl
  | destroyed called index owned owner after woken orderly semArray =>
      by_cases same : sem = called
      · subst same
        have view : after.semView sem = ⟨(kernel.core.semArray sem).counter, -1, []⟩ := by
          rw [semView, semArray, woken.emptied rfl]
          simp
        rw [Steps, view]
        exact .destroyed _ _ _ owned
      · exact .of_same rfl rfl (semView_congr (by simp [semArray, same]) (woken.blocked same))

theorem Effect.steps (disciplined : Disciplined kernel) {event : Event}
    (effect : Effect kernel event after) : Steps sem event kernel after := by
  have finish : ∀ {outcome : SequenceKernel × Option Int},
      Steps sem event kernel outcome.1 → Steps sem event kernel (finishCall outcome) := by
    intro outcome steps
    rwa [Steps, finishCall_semView]
  cases effect with
  | resume outcome => exact .of_same rfl rfl (outcome.semView disciplined)
  | clock outcome =>
      exact .of_same rfl rfl ((leaveUnlessSwitched_semView _ _).trans (outcome.semView disciplined))
  | ignored llegit refused => exact .of_same rfl rfl rfl
  | keyboard llegit accepted outcome =>
      exact .of_same rfl rfl ((leaveUnlessSwitched_semView _ _).trans (outcome.semView disciplined))
  | getpid result => exact finish (.of_same rfl rfl rfl)
  | gettime result => exact finish (.of_same rfl rfl rfl)
  | fork outcome => exact finish (.of_same rfl rfl (outcome.semView disciplined))
  | clone function stack outcome => exact finish (.of_same rfl rfl (outcome.semView disciplined))
  | exit outcome => exact outcome.steps disciplined
  | sbrk amount outcome =>
      refine finish (.of_same rfl rfl ?_)
      cases outcome <;> rfl
  | semInit nSem value outcome => exact finish (outcome.steps disciplined.toOrderly)
  | semWait nSem outcome => exact finish (outcome.steps disciplined)
  | semSignal nSem outcome => exact finish (outcome.steps disciplined)
  | semDestroy nSem outcome => exact finish outcome.steps
  | read fd buffer count i call =>
      exact finish (.of_same rfl rfl (call.coarse.semView disciplined))
  | write fd buffer size result => exact finish (.of_same rfl rfl rfl)
  | getStats pid st told =>
      refine finish (.of_same rfl rfl ?_)
      cases told <;> rfl
  | niSyscall => exact finish (.of_same rfl rfl rfl)

end Effects

theorem step_semaphores {machine : Machine} {before after : SequenceKernel} {event : Event}
    (disciplined : Disciplined before) (step : (checkedZeos machine).step before event after)
    (sem : SemId) : Steps sem event before after := by
  rcases step_effect disciplined step with ⟨core, entry, entered, -, effect⟩
  have caller : core.current = before.core.current := entry.current
  have pid : (Kernel.currentTask ⟨core, before.queues⟩).pid = before.currentTask.pid := by
    show (core.task core.current).pid = _
    rw [caller, entry.task]
    rfl
  have view : Kernel.semView ⟨core, before.queues⟩ sem = before.semView sem := by
    simp only [semView, entry.semArray]
  have steps : SemStep sem event core.current (Kernel.currentTask ⟨core, before.queues⟩).pid
      (Kernel.semView ⟨core, before.queues⟩ sem) (after.semView sem) := effect.steps entered
  rwa [view, pid, caller] at steps

/-! ## Conservation and order

What a run did to a semaphore is read off the recorded states. -/

def departed (queue later : List TaskId) : List TaskId := queue.filter (· ∉ later)

theorem departed_of_subset {queue later : List TaskId} (kept : ∀ t ∈ queue, t ∈ later) :
    departed queue later = [] := by
  simpa [departed] using kept

theorem departed_self (queue : List TaskId) : departed queue queue = [] :=
  departed_of_subset fun _ => id

theorem departed_append {queue : List TaskId} {t : TaskId} (absent : t ∉ queue) :
    departed (queue ++ [t]) queue = [t] := by
  have kept := departed_self queue
  unfold departed at kept ⊢
  rw [List.filter_append, kept]
  simp [absent]

theorem departed_cons {queue : List TaskId} {t : TaskId} (absent : t ∉ queue) :
    departed (t :: queue) queue = [t] := by
  have kept := departed_self queue
  unfold departed at kept ⊢
  rw [List.filter_cons, kept]
  simp [absent]

section Histories

variable (sem : SemId)

def leaving (transition : Recorded) : List TaskId :=
  departed (transition.before.semView sem).waiters (transition.after.semView sem).waiters

def entering (transition : Recorded) : List TaskId :=
  departed (transition.after.semView sem).waiters (transition.before.semView sem).waiters

def passing (transition : Recorded) : Bool :=
  transition.label.waitsFor sem &&
    decide (transition.before.core.current ∉ (transition.after.semView sem).waiters)

def granted (history : List Recorded) : Nat :=
  history.countP (passing sem) + (history.flatMap (leaving sem)).length

def signalled (history : List Recorded) : Nat :=
  history.countP fun transition => transition.label.signals sem

/-- The transition is a successful `sys_sem_init` with the given value. -/
def Initialises (value : Nat) (transition : Recorded) : Prop :=
  (∃ nSem, transition.label = .semInit nSem value ∧ semIndex nSem = some sem) ∧
    (transition.after.core.task transition.before.core.current).context.eax = 0

/-- The semaphore had an owner and has none any more. -/
def Destroys (transition : Recorded) : Prop :=
  (transition.before.semView sem).ownerPid ≠ -1 ∧ (transition.after.semView sem).ownerPid = -1

/-- The state of the books at the end of `history`, for a semaphore that started
with `value` units. -/
structure Conserved (value : Nat) (history : List Recorded) (last : SequenceKernel) : Prop where
  balance : granted sem history + (last.semView sem).counter = value + signalled sem history
  notNegative : 0 ≤ (last.semView sem).counter
  exhausted : (last.semView sem).waiters ≠ [] → (last.semView sem).counter = 0
  /-- Tasks leave the queue in the order in which they entered it. -/
  inOrder : history.flatMap (entering sem) =
    history.flatMap (leaving sem) ++ (last.semView sem).waiters
  /-- A signal lets one waiter go if there is one, and nothing else does. -/
  onePerSignal : ∀ transition ∈ history, leaving sem transition =
    if transition.label.signals sem then (transition.before.semView sem).waiters.take 1 else []

end Histories

section Conservation

variable {sem : SemId} {value : Nat} {history : List Recorded}

theorem Event.not_both {event : Event} :
    ¬(event.waitsFor sem = true ∧ event.signals sem = true) := by
  cases event <;> simp [Event.signals, Event.waitsFor]

theorem Conserved.start {first : SequenceKernel} (counter : (first.semView sem).counter = value)
    (empty : (first.semView sem).waiters = []) : Conserved sem value [] first where
  balance := by simp [granted, signalled, counter]
  notNegative := by omega
  exhausted waiting := absurd empty waiting
  inOrder := by simp [empty]
  onePerSignal := by simp

theorem Conserved.snoc {transition : Recorded}
    (conserved : Conserved sem value history transition.before)
    (units : (if passing sem transition then 1 else 0 : Nat) + (leaving sem transition).length +
      (transition.after.semView sem).counter = (transition.before.semView sem).counter +
        (if transition.label.signals sem then 1 else 0 : Nat))
    (notNegative : 0 ≤ (transition.after.semView sem).counter)
    (exhausted : (transition.after.semView sem).waiters ≠ [] →
      (transition.after.semView sem).counter = 0)
    (order : (transition.before.semView sem).waiters ++ entering sem transition =
      leaving sem transition ++ (transition.after.semView sem).waiters)
    (onePerSignal : leaving sem transition = if transition.label.signals sem then
      (transition.before.semView sem).waiters.take 1 else []) :
    Conserved sem value (history ++ [transition]) transition.after where
  balance := by
    have balance := conserved.balance
    have counted : ∀ p : Recorded → Bool, (history ++ [transition]).countP p =
        history.countP p + if p transition then 1 else 0 := by
      intro p
      rw [List.countP_append, List.countP_singleton]
    have left : ((history ++ [transition]).flatMap (leaving sem)).length =
        (history.flatMap (leaving sem)).length + (leaving sem transition).length := by
      rw [List.flatMap_append, List.length_append, List.flatMap_singleton]
    unfold granted signalled at *
    rw [counted, counted, left]
    generalize (if passing sem transition then 1 else 0 : Nat) = passes at *
    generalize (if transition.label.signals sem then 1 else 0 : Nat) = signals at *
    omega
  notNegative := notNegative
  exhausted := exhausted
  inOrder := by
    simp only [List.flatMap_append, List.flatMap_cons, List.flatMap_nil, List.append_nil]
    rw [conserved.inOrder, List.append_assoc, order, List.append_assoc]
  onePerSignal earlier member := by
    rcases List.mem_append.mp member with old | new
    · exact conserved.onePerSignal earlier old
    · rw [List.mem_singleton.mp new]
      exact onePerSignal

theorem Conserved.step {transition : Recorded} (disciplined : Disciplined transition.before)
    (conserved : Conserved sem value history transition.before)
    (steps : Steps sem transition.label transition.before transition.after)
    (owned : (transition.before.semView sem).ownerPid ≠ -1) (kept : ¬Destroys sem transition) :
    Conserved sem value (history ++ [transition]) transition.after := by
  have notWaiting : transition.before.core.current ∉ (transition.before.semView sem).waiters :=
    current_not_waiting disciplined
  have nodup : (transition.before.semView sem).waiters.Nodup := disciplined.placed.nodup _
  have notNegative := conserved.notNegative
  have exhausted := conserved.exhausted
  have extend := conserved.snoc
  unfold Destroys at kept
  unfold leaving entering passing at extend
  unfold Steps at steps
  generalize transition.before.semView sem = before at *
  generalize transition.after.semView sem = after at *
  generalize transition.before.core.current = caller at *
  cases steps with
  | untouched view uncalled =>
      rcases uncalled owned with ⟨notWait, notSignal⟩
      simp only [departed_self, notWait, notSignal] at extend
      exact extend (by simp) notNegative exhausted (by simp) (by simp)
  | passes counter owner waiters wait positive =>
      have notSignal : transition.label.signals sem = false :=
        Bool.eq_false_iff.mpr fun signal => Event.not_both ⟨wait, signal⟩
      have empty : ¬waiters ≠ [] := fun waiting => by
        have spent : counter = 0 := exhausted waiting
        omega
      simp only [departed_self, wait, notSignal, notWaiting] at extend
      refine extend ?_ (by omega) (fun waiting => absurd waiting empty) (by simp) (by simp)
      simp only [not_false_eq_true, decide_true, Bool.and_self, ↓reduceIte, List.length_nil,
        Bool.false_eq_true]
      omega
  | blocks counter owner waiters wait spent =>
      have notSignal : transition.label.signals sem = false :=
        Bool.eq_false_iff.mpr fun signal => Event.not_both ⟨wait, signal⟩
      have noneLeft : departed waiters (waiters ++ [caller]) = [] :=
        departed_of_subset fun t member => by simp [member]
      have zero : counter = 0 := Int.le_antisymm spent notNegative
      simp only [noneLeft, departed_append notWaiting, wait, notSignal] at extend
      exact extend (by simp) notNegative (fun _ => zero) (by simp) (by simp)
  | counts counter owner signal =>
      have notWait : transition.label.waitsFor sem = false :=
        Bool.eq_false_iff.mpr fun wait => Event.not_both ⟨wait, signal⟩
      have bound : 0 ≤ counter := notNegative
      simp only [departed_self, notWait, signal] at extend
      exact extend (by simp) (by omega) (fun waiting => absurd rfl waiting) (by simp) (by simp)
  | wakes counter owner first rest signal =>
      have notWait : transition.label.waitsFor sem = false :=
        Bool.eq_false_iff.mpr fun wait => Event.not_both ⟨wait, signal⟩
      have noneEntered : departed rest (first :: rest) = [] :=
        departed_of_subset fun t member => by simp [member]
      have zero : counter = 0 := exhausted (List.cons_ne_nil first rest)
      simp only [noneEntered, departed_cons (List.nodup_cons.mp nodup).1, notWait, signal] at extend
      exact extend (by simp [zero]) notNegative (fun _ => zero) (by simp) (by simp)
  | initialised counter nSem value init index => exact absurd rfl owned
  | destroyed counter owner waiters owned => exact absurd ⟨owned, rfl⟩ kept

theorem Conserved.of_run {machine : Machine} {first last : SequenceKernel}
    (run : (checkedZeos machine).Run first history last) (disciplined : Disciplined first)
    (owned : (first.semView sem).ownerPid ≠ -1) (initially : Conserved sem value [] first)
    (alive : ∀ transition ∈ history, ¬Destroys sem transition) :
    Conserved sem value history last ∧ (last.semView sem).ownerPid ≠ -1 := by
  induction run with
  | nil => exact ⟨initially, owned⟩
  | snoc earlier step induction =>
      rename_i events middle label last
      rcases induction fun transition member => alive transition (by simp [member]) with
        ⟨conserved, stillOwned⟩
      have ordered : Disciplined middle := disciplined_of_run earlier disciplined
      have kept : ¬Destroys sem ⟨middle, label, last⟩ := alive _ (by simp)
      refine ⟨Conserved.step ordered conserved (step_semaphores ordered step sem) stillOwned kept,
        fun gone => kept ⟨stillOwned, gone⟩⟩

theorem toSigned_of_lt {value : Nat} (range : value ≤ 2147483647) : toSigned value = value := by
  have small : value % 4294967296 = value := Nat.mod_eq_of_lt (by omega)
  unfold toSigned
  rw [small, if_pos (by omega)]

theorem Initialises.semView_signed {machine : Machine} {transition : Recorded}
    (initialises : Initialises sem value transition)
    (disciplined : Disciplined transition.before)
    (numbered : transition.before.processes.Numbered)
    (step : (checkedZeos machine).step transition.before transition.label transition.after) :
    ∃ pid, pid ≠ -1 ∧ transition.after.semView sem = ⟨toSigned value, pid, []⟩ := by
  rcases transition with ⟨before, label, after⟩
  rcases initialises with ⟨⟨nSem, equal, index⟩, success⟩
  dsimp only at *
  subst equal
  rcases step_effect disciplined step with ⟨core, entry, -, -, effect⟩
  have caller : core.current = before.core.current := entry.current
  have pid : 0 ≤ (core.task core.current).pid := by
    rw [caller, entry.task]
    exact numbered.taken _ (disciplined.sound.liveNotFree disciplined.sound.callerLive)
  rw [← caller] at success
  cases effect with
  | semInit nSem value initialised =>
      cases initialised with
      | refused index =>
          rw [show _ = -einval from finishCall_eax ⟨core, before.queues⟩ (-einval)] at success
          cases success
      | busy called index owned =>
          rw [show _ = -ebusy from finishCall_eax ⟨core, before.queues⟩ (-ebusy)] at success
          cases success
      | initialised called here unowned =>
          have chosen : called = sem := Option.some.inj (here.symm.trans index)
          subst chosen
          have empty : before.queues.elements (.blocked called) = [] :=
            disciplined.unowned called (by rw [← entry.semArray]; exact unowned)
          refine ⟨(core.task core.current).pid, by omega, ?_⟩
          rw [finishCall_semView]
          simp [Kernel.semView, currentTask, empty]

theorem Initialises.semView {machine : Machine} {transition : Recorded}
    (initialises : Initialises sem value transition) (range : value ≤ 2147483647)
    (disciplined : Disciplined transition.before)
    (numbered : transition.before.processes.Numbered)
    (step : (checkedZeos machine).step transition.before transition.label transition.after) :
    ∃ pid, pid ≠ -1 ∧ transition.after.semView sem = ⟨value, pid, []⟩ := by
  have signed := initialises.semView_signed disciplined numbered step
  rwa [toSigned_of_lt range] at signed

end Conservation

theorem execute_semWait_total {kernel : SequenceKernel} (disciplined : Disciplined kernel)
    (nSem : Int) : ∃ after, kernel.execute (.semWait nSem) = .ok after := by
  have entered : Disciplined ⟨kernel.core.enterSystem, kernel.queues⟩ :=
    disciplined.sameButStats (.charge _ _)
  rcases sysSemWait_outcome entered nSem with ⟨outcome, finished, -⟩
  refine ⟨finishCall outcome, ?_⟩
  show (do
    let outcome ← Kernel.sysSemWait ⟨kernel.core.enterSystem, kernel.queues⟩ nSem
    return finishCall outcome) = _
  rw [finished]
  rfl

theorem execute_semaphore_total {kernel : SequenceKernel} (disciplined : Disciplined kernel)
    {event : Event} {sem : SemId} (concerns : event.waitsFor sem ∨ event.signals sem)
    (bound : (kernel.core.semArray sem).counter < 2147483647) :
    ∃ after, kernel.execute event = .ok after := by
  have entered : Disciplined ⟨kernel.core.enterSystem, kernel.queues⟩ :=
    disciplined.sameButStats (.charge _ _)
  cases event with
  | semWait nSem => exact execute_semWait_total disciplined nSem
  | semSignal nSem =>
      have index : semIndex nSem = some sem := by
        simpa [Event.waitsFor, Event.signals] using concerns
      have ensured := sysSemSignal_outcome entered.toOrderly nSem
      show ∃ after, (do
        let outcome ← returning (fun k => k.sysSemSignal nSem)
          ⟨kernel.core.enterSystem, kernel.queues⟩
        return finishCall outcome) = .ok after
      unfold returning
      dsimp only
      cases signalled : Kernel.sysSemSignal ⟨kernel.core.enterSystem, kernel.queues⟩ nSem with
      | ok outcome => exact ⟨_, rfl⟩
      | error failure =>
          rcases (ensured.of_error signalled).2 with ⟨called, here, high⟩
          cases here.symm.trans index
          have counter : (kernel.core.semArray sem).counter < 2147483647 := bound
          exact absurd counter (Int.not_lt.mpr high)
  | _ => simp [Event.waitsFor, Event.signals] at concerns

/-- From a successful `sys_sem_init` to the destruction of the semaphore, in any
run: units are conserved, waiters are let go in the order in which they blocked,
and waits and signals do not fault within the range of the counter. -/
theorem semConservation {machine : Machine} {history : List (Transition PointerKernel Event)}
    {last : PointerKernel} (reaches : (zeos machine).Reaches history last)
    {earlier since : List Recorded} {init : Recorded}
    (recorded : history.map (Transition.map Kernel.toSequences) = earlier ++ init :: since)
    {sem : SemId} {value : Nat} (initialises : Initialises sem value init)
    (range : value ≤ 2147483647) (alive : ∀ transition ∈ since, ¬Destroys sem transition) :
    Conserved sem value since last.toSequences ∧
      ∀ event, event.Enabled last.core → event.waitsFor sem ∨ event.signals sem →
        value + signalled sem since + 1 < 2147483648 → ∃ after, last.execute event = .ok after := by
  rcases run_toSequences reaches with ⟨mirrored, first, start, run⟩
  rw [recorded] at run
  rcases run.around with ⟨before, step, after⟩
  have numbered : init.before.processes.Numbered := reachable_numbered ⟨first, start, before⟩
  rw [init_eq start] at before
  have disciplined : Disciplined init.before :=
    disciplined_of_run before (boot_disciplined machine)
  rcases initialises.semView range disciplined numbered step with ⟨pid, owned, view⟩
  have conserved := (Conserved.of_run after (execute_disciplined disciplined step.1 step.2)
    (by rw [view]; exact owned) (.start (by rw [view]) (by rw [view])) alive).1
  refine ⟨conserved, fun event enabled concerns bound => ?_⟩
  have balance := conserved.balance
  have counter : (last.toSequences.core.semArray sem).counter =
      (last.toSequences.semView sem).counter := rfl
  rcases execute_semaphore_total mirrored.disciplined concerns (by omega) with ⟨result, executed⟩
  cases outcome : last.execute event with
  | ok after => exact ⟨after, rfl⟩
  | error failure =>
      rw [((mirrored.execute enabled).2 failure).mp outcome] at executed
      cases executed

/-- A thread that waits twice for one unit hands over to its clone, whose signal
lets it go on. -/
def handover : List Event :=
  [.semInit 0 1, .semWait 0, .clone 1048576 1081344, .semWait 0, .resume, .semSignal 0]

theorem semConservation_handover :
    ∃ history last init since, (zeos Machine.sample).Reaches history last ∧
      history.map (Transition.map Kernel.toSequences) = init :: since ∧ since.length = 5 ∧
      Conserved 0 1 since last.toSequences ∧
      ∀ event, event.Enabled last.core → event.waitsFor 0 ∨ event.signals 0 →
        1 + signalled 0 since + 1 < 2147483648 → ∃ after, last.execute event = .ok after := by
  have computed : (replay handover ⟨Machine.sample.bootCore 0 1, bootLinks⟩).any (fun run =>
      passesAt 0 (fun init since => init.label = .semInit 0 1 ∧
        (init.after.core.task init.before.core.current).context.eax = 0 ∧ since.length = 5 ∧
        ∀ transition ∈ since, (transition.after.semView 0).ownerPid ≠ -1)
          (record run.1)) = true := by
    decide +kernel
  rcases reaches_of_replay computed with ⟨history, last, reaches, found⟩
  rcases split_of_passesAt found with ⟨init, since, split, tested⟩
  rcases of_decide_eq_true tested with ⟨label, success, length, owned⟩
  refine ⟨history, last, init, since, reaches, split, length, ?_⟩
  exact semConservation reaches split ⟨⟨0, label, rfl⟩, success⟩ (by decide)
    fun transition member destroyed => owned transition member destroyed.2

end Zeos
