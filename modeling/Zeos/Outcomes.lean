import Zeos.Discipline

/-! # Outcomes of the routines

What each routine of the kernel over checked sequences can do from an orderly
state. Later arguments about steps go by cases over these outcomes and do not
look at the routines again.
-/

namespace Zeos

open Foundation Kernel

def Fault.Elsewhere (fault : Fault) : Prop := Mm.OfMemory fault ∨ fault = .signedOverflow

/-- The variables after characters moved from the keyboard through the ring
into memory. -/
def Core.withInput (core : Core) (ram : Nat → Nat → UInt8) (circbuff : Circbuff)
    (readers : TaskId → Int) : Core :=
  { core with
    mm := { core.mm with ram := ram }
    circbuff := circbuff
    keyboardReadersCount := readers }

variable {kernel : SequenceKernel}

/-! ## Blocking -/

/-- Put the current task at the end of a queue, in the state of that queue, and
dispatch another one. -/
def Kernel.parkTail (kernel : SequenceKernel) (queue : Queue) (frames : List Frame) :
    SequenceKernel :=
  dispatch ⟨kernel.core.setState kernel.core.current (stateWithin queue),
    kernel.queues.toTail kernel.core.current queue⟩ frames

def Kernel.parkFront (kernel : SequenceKernel) (queue : Queue) (frames : List Frame) :
    SequenceKernel :=
  dispatch ⟨kernel.core.setState kernel.core.current (stateWithin queue),
    kernel.queues.toFront kernel.core.current queue⟩ frames

section Parking

variable {queue : Queue} {frames : List Frame}

theorem placed_toTail (orderly : Orderly kernel) (t : TaskId) (queue : Queue) :
    Placed (Kernel.states ⟨kernel.core.setState t (stateWithin queue),
      kernel.queues.toTail t queue⟩) (kernel.queues.toTail t queue) :=
  orderly.placed.toTail queue (fun other different => by simp [Kernel.states, different])
    (by simp [Kernel.states])

theorem placed_toFront (orderly : Orderly kernel) (t : TaskId) (queue : Queue) :
    Placed (Kernel.states ⟨kernel.core.setState t (stateWithin queue),
      kernel.queues.toFront t queue⟩) (kernel.queues.toFront t queue) :=
  orderly.placed.toFront queue (fun other different => by simp [Kernel.states, different])
    (by simp [Kernel.states])

theorem parkTail_eq (disciplined : Disciplined kernel) {α : Type} {state : ProcessState}
    (agrees : state = stateWithin queue) (frames : List Frame)
    (next : SequenceKernel → Except Fault α) :
    (do
      let parked ← Kernel.addTail ⟨kernel.core.setState kernel.core.current state, kernel.queues⟩
        kernel.core.current queue
      let switched ← parked.schedNextRr frames
      next switched) = next (kernel.parkTail queue frames) := by
  subst agrees
  have unlinked : ¬Sequences.Linked (Kernel.queues
      ⟨kernel.core.setState kernel.core.current (stateWithin queue), kernel.queues⟩)
      kernel.core.current := disciplined.currentUnlinked
  have placed := placed_toTail disciplined.toOrderly kernel.core.current queue
  rw [addTail_eq unlinked, ok_bind, schedNextRr_eq placed, ok_bind]
  rfl

theorem parkFront_eq (disciplined : Disciplined kernel) {α : Type} {state : ProcessState}
    (agrees : state = stateWithin queue) (frames : List Frame)
    (next : SequenceKernel → Except Fault α) :
    (do
      let parked ← Kernel.add ⟨kernel.core.setState kernel.core.current state, kernel.queues⟩
        kernel.core.current queue
      let switched ← parked.schedNextRr frames
      next switched) = next (kernel.parkFront queue frames) := by
  subst agrees
  have unlinked : ¬Sequences.Linked (Kernel.queues
      ⟨kernel.core.setState kernel.core.current (stateWithin queue), kernel.queues⟩)
      kernel.core.current := disciplined.currentUnlinked
  have placed := placed_toFront disciplined.toOrderly kernel.core.current queue
  rw [add_eq unlinked, ok_bind, schedNextRr_eq placed, ok_bind]
  rfl

theorem updateProcessStateRr_parks (disciplined : Disciplined kernel) {α : Type}
    (agrees : stateIn (some queue) = stateWithin queue) (frames : List Frame)
    (next : SequenceKernel → Except Fault α) :
    (do
      let parked ← kernel.updateProcessStateRr kernel.core.current (some queue)
      let switched ← parked.schedNextRr frames
      next switched) = next (kernel.parkTail queue frames) := by
  have running : (kernel.core.task kernel.core.current).state = .run :=
    disciplined.toOrderly.placed.outside disciplined.currentUnlinked
  have placed := placed_toTail disciplined.toOrderly kernel.core.current queue
  simp only [updateProcessStateRr, running, ne_eq, not_true_eq_false, if_false, ok_bind,
    addTail_eq disciplined.currentUnlinked, mapCore, agrees, pure_eq_ok]
  rw [schedNextRr_eq placed, ok_bind]
  rfl

theorem updateProcessStateRr_parks_last (disciplined : Disciplined kernel)
    (agrees : stateIn (some queue) = stateWithin queue) (frames : List Frame) :
    (do
      let parked ← kernel.updateProcessStateRr kernel.core.current (some queue)
      parked.schedNextRr frames) = .ok (kernel.parkTail queue frames) := by
  have parks := updateProcessStateRr_parks disciplined agrees frames pure
  simp only [bind_pure] at parks
  exact parks

/-! What parking changes: the queue that the task enters, its state and its
stack, and the readyqueue, from which another task is dispatched. -/

@[simp] theorem parkTail_frame (kernel : SequenceKernel) (queue : Queue) (frames : List Frame) :
    (kernel.parkTail queue frames).core.mm = kernel.core.mm ∧
      (kernel.parkTail queue frames).core.idleTask = kernel.core.idleTask ∧
      (kernel.parkTail queue frames).core.semArray = kernel.core.semArray ∧
      (kernel.parkTail queue frames).core.globalPID = kernel.core.globalPID ∧
      (kernel.parkTail queue frames).core.inKernel = true := by
  simp [parkTail]

@[simp] theorem parkFront_frame (kernel : SequenceKernel) (queue : Queue) (frames : List Frame) :
    (kernel.parkFront queue frames).core.mm = kernel.core.mm ∧
      (kernel.parkFront queue frames).core.idleTask = kernel.core.idleTask ∧
      (kernel.parkFront queue frames).core.semArray = kernel.core.semArray ∧
      (kernel.parkFront queue frames).core.globalPID = kernel.core.globalPID ∧
      (kernel.parkFront queue frames).core.inKernel = true := by
  simp [parkFront]

theorem parkTail_elements (disciplined : Disciplined kernel) (frames : List Frame)
    {other : Queue} (notReady : other ≠ .readyqueue) :
    (kernel.parkTail queue frames).queues.elements other =
      if other = queue then kernel.queues.elements queue ++ [kernel.core.current]
      else kernel.queues.elements other := by
  rw [parkTail, dispatch_elements (placed_toTail disciplined.toOrderly _ _) frames notReady]
  exact Sequences.toTail_unlinked disciplined.currentUnlinked

theorem parkFront_elements (disciplined : Disciplined kernel) (frames : List Frame)
    {other : Queue} (notReady : other ≠ .readyqueue) :
    (kernel.parkFront queue frames).queues.elements other =
      if other = queue then kernel.core.current :: kernel.queues.elements queue
      else kernel.queues.elements other := by
  rw [parkFront, dispatch_elements (placed_toFront disciplined.toOrderly _ _) frames notReady]
  exact Sequences.toFront_unlinked disciplined.currentUnlinked

theorem agreesBut_setState (kernel : SequenceKernel) (t : TaskId) (state : ProcessState) :
    AgreesBut t (kernel.core.setState t state) kernel.core :=
  ⟨fun rest different => by simp [different], by simp, by simp, by simp⟩

theorem mayEnter_setState {t : TaskId} (notIdle : queue ≠ .readyqueue → t ≠ kernel.core.idleTask)
    (owned : ∀ sem, queue = .blocked sem → (kernel.core.semArray sem).ownerPid ≠ -1) :
    Orderly.MayEnter (kernel.core.setState t (stateWithin queue)) t queue :=
  ⟨by simp, by simpa using notIdle, by simpa using owned⟩

theorem parkTail_disciplined (disciplined : Disciplined kernel)
    (notIdle : queue ≠ .readyqueue → kernel.core.current ≠ kernel.core.idleTask)
    (owned : ∀ sem, queue = .blocked sem → (kernel.core.semArray sem).ownerPid ≠ -1)
    (suspended : kernel.core.current = kernel.core.idleTask →
      ∀ frame ∈ frames, frame.OfInterrupt) :
    Disciplined (kernel.parkTail queue frames) :=
  dispatch_disciplined (disciplined.toOrderly.toTail (agreesBut_setState kernel _ _)
    (mayEnter_setState notIdle owned)) (by simpa using suspended)

theorem parkFront_disciplined (disciplined : Disciplined kernel)
    (notIdle : queue ≠ .readyqueue → kernel.core.current ≠ kernel.core.idleTask)
    (owned : ∀ sem, queue = .blocked sem → (kernel.core.semArray sem).ownerPid ≠ -1)
    (suspended : kernel.core.current = kernel.core.idleTask →
      ∀ frame ∈ frames, frame.OfInterrupt) :
    Disciplined (kernel.parkFront queue frames) :=
  dispatch_disciplined (disciplined.toOrderly.toFront (agreesBut_setState kernel _ _)
    (mayEnter_setState notIdle owned)) (by simpa using suspended)

end Parking

/-! ## Semaphores -/

inductive WaitOutcome (kernel : SequenceKernel) (nSem : Int) :
    SequenceKernel × Option Int → Prop
  | refused (unusable : ∀ sem, semIndex nSem = some sem →
      (kernel.core.semArray sem).ownerPid = -1) :
      WaitOutcome kernel nSem (kernel, some (-einval))
  | passes (sem : SemId) (index : semIndex nSem = some sem)
      (owned : (kernel.core.semArray sem).ownerPid ≠ -1)
      (positive : 0 < (kernel.core.semArray sem).counter) :
      WaitOutcome kernel nSem
        (⟨(kernel.core.setCounter sem ((kernel.core.semArray sem).counter - 1)).setSemdestroyed
          kernel.core.current false, kernel.queues⟩,
        some (if kernel.currentTask.semdestroyed then -einval else 0))
  | blocks (sem : SemId) (index : semIndex nSem = some sem)
      (owned : (kernel.core.semArray sem).ownerPid ≠ -1)
      (exhausted : (kernel.core.semArray sem).counter ≤ 0) :
      WaitOutcome kernel nSem (kernel.parkTail (.blocked sem) [.sysSemWait], none)

theorem setSemdestroyed_false {core : Core} {t : TaskId}
    (clear : (core.task t).semdestroyed = false) : core.setSemdestroyed t false = core := by
  unfold Core.setSemdestroyed Core.modifyTask
  rw [← clear]
  simp

theorem sysSemWaitTail_eq (kernel : SequenceKernel) :
    kernel.sysSemWaitTail =
      (⟨kernel.core.setSemdestroyed kernel.core.current false, kernel.queues⟩,
        if kernel.currentTask.semdestroyed then -einval else 0) := by
  unfold sysSemWaitTail
  cases flag : kernel.currentTask.semdestroyed with
  | true => rfl
  | false =>
      rw [setSemdestroyed_false flag]
      rfl

theorem usable_or_not (kernel : SequenceKernel) (nSem : Int) :
    (∀ sem, semIndex nSem = some sem → (kernel.core.semArray sem).ownerPid = -1) ∨
      ∃ sem, semIndex nSem = some sem ∧ (kernel.core.semArray sem).ownerPid ≠ -1 := by
  cases index : semIndex nSem with
  | none => simp
  | some sem =>
      by_cases unowned : (kernel.core.semArray sem).ownerPid = -1
      · exact .inl fun other same => by cases same; exact unowned
      · exact .inr ⟨sem, rfl, unowned⟩

theorem sysSemWait_outcome (disciplined : Disciplined kernel) (nSem : Int) :
    ∃ outcome, kernel.sysSemWait nSem = .ok outcome ∧ WaitOutcome kernel nSem outcome := by
  unfold sysSemWait
  rcases usable_or_not kernel nSem with unusable | ⟨sem, index, owned⟩
  · refine ⟨_, ?_, .refused unusable⟩
    cases index : semIndex nSem with
    | none => rfl
    | some sem => simp [unusable sem index]
  · rw [index]
    dsimp only
    rw [if_neg owned]
    by_cases exhausted : (kernel.core.semArray sem).counter ≤ 0
    · rw [if_pos exhausted]
      exact ⟨_, parkTail_eq disciplined rfl [.sysSemWait] fun switched => .ok (switched, none),
        .blocks sem index owned exhausted⟩
    · rw [if_neg exhausted, sysSemWaitTail_eq]
      exact ⟨_, rfl, .passes sem index owned (by omega)⟩

inductive InitOutcome (kernel : SequenceKernel) (nSem : Int) (value : Nat) :
    SequenceKernel × Int → Prop
  | refused (index : semIndex nSem = none) : InitOutcome kernel nSem value (kernel, -einval)
  | busy (sem : SemId) (index : semIndex nSem = some sem)
      (owned : (kernel.core.semArray sem).ownerPid ≠ -1) :
      InitOutcome kernel nSem value (kernel, -ebusy)
  | initialised (sem : SemId) (index : semIndex nSem = some sem)
      (unowned : (kernel.core.semArray sem).ownerPid = -1) :
      InitOutcome kernel nSem value
        (⟨(kernel.core.setCounter sem (toSigned value)).setOwner sem kernel.currentTask.pid,
          kernel.queues⟩, 0)

theorem sysSemInit_outcome (orderly : Orderly kernel) (nSem : Int) (value : Nat) :
    ∃ outcome, kernel.sysSemInit nSem value = .ok outcome ∧
      InitOutcome kernel nSem value outcome := by
  unfold sysSemInit
  cases index : semIndex nSem with
  | none => exact ⟨_, rfl, .refused index⟩
  | some sem =>
      dsimp only
      by_cases unowned : (kernel.core.semArray sem).ownerPid = -1
      · rw [if_neg (not_not.mpr unowned)]
        have empty : Sequences.elements (Kernel.queues
            (kernel.mapCore fun core => core.setCounter sem (toSigned value))) (.blocked sem) =
              [] :=
          orderly.unowned sem unowned
        rw [initHead_nil empty, ok_bind]
        exact ⟨_, rfl, .initialised sem index unowned⟩
      · rw [if_pos unowned]
        exact ⟨_, rfl, .busy sem index unowned⟩

def Kernel.wake (kernel : SequenceKernel) (t : TaskId) : SequenceKernel :=
  ⟨kernel.core.setState t .ready, kernel.queues.toTail t .readyqueue⟩

inductive SignalOutcome (kernel : SequenceKernel) (nSem : Int) : SequenceKernel × Int → Prop
  | refused (unusable : ∀ sem, semIndex nSem = some sem →
      (kernel.core.semArray sem).ownerPid = -1) :
      SignalOutcome kernel nSem (kernel, -einval)
  | counts (sem : SemId) (index : semIndex nSem = some sem)
      (owned : (kernel.core.semArray sem).ownerPid ≠ -1)
      (empty : kernel.queues.elements (.blocked sem) = []) :
      SignalOutcome kernel nSem
        (⟨kernel.core.setCounter sem ((kernel.core.semArray sem).counter + 1), kernel.queues⟩, 0)
  | wakes (sem : SemId) (index : semIndex nSem = some sem)
      (owned : (kernel.core.semArray sem).ownerPid ≠ -1) (first : TaskId) (rest : List TaskId)
      (waiting : kernel.queues.elements (.blocked sem) = first :: rest) :
      SignalOutcome kernel nSem (kernel.wake first, 0)

theorem del_addTail_eq (orderly : Orderly kernel) {α : Type} {queue target : Queue} {t : TaskId}
    (member : t ∈ kernel.queues.elements queue) (change : Core → Core)
    (next : SequenceKernel → Except Fault α) :
    (do
      let removed ← kernel.del t
      let moved ← (removed.mapCore change).addTail t target
      next moved) = next ⟨change kernel.core, kernel.queues.toTail t target⟩ := by
  have unlinked : ¬(kernel.queues.remove t).Linked t := orderly.placed.remove_not_linked
  have unlinked' : ¬Sequences.Linked (Kernel.queues
    (Kernel.mapCore ⟨kernel.core, kernel.queues.remove t⟩ change)) t := unlinked
  rw [del_eq ⟨queue, member⟩, ok_bind, addTail_eq unlinked', ok_bind]
  simp only [mapCore, Sequences.toTail, Sequences.remove_unlinked unlinked]

theorem del_add_eq (orderly : Orderly kernel) {α : Type} {queue target : Queue} {t : TaskId}
    (member : t ∈ kernel.queues.elements queue) (change : Core → Core)
    (next : SequenceKernel → Except Fault α) :
    (do
      let removed ← kernel.del t
      let moved ← (removed.mapCore change).add t target
      next moved) = next ⟨change kernel.core, kernel.queues.toFront t target⟩ := by
  have unlinked : ¬(kernel.queues.remove t).Linked t := orderly.placed.remove_not_linked
  have unlinked' : ¬Sequences.Linked (Kernel.queues
    (Kernel.mapCore ⟨kernel.core, kernel.queues.remove t⟩ change)) t := unlinked
  rw [del_eq ⟨queue, member⟩, ok_bind, add_eq unlinked', ok_bind]
  simp only [mapCore, Sequences.toFront, Sequences.remove_unlinked unlinked]

theorem sysSemSignal_outcome (orderly : Orderly kernel) (nSem : Int) :
    Ensures (fun fault => fault = .signedOverflow ∧ ∃ sem, semIndex nSem = some sem ∧
        2147483647 ≤ (kernel.core.semArray sem).counter)
      (SignalOutcome kernel nSem) (kernel.sysSemSignal nSem) := by
  unfold sysSemSignal
  rcases usable_or_not kernel nSem with unusable | ⟨sem, index, owned⟩
  · have refused := SignalOutcome.refused unusable
    cases index : semIndex nSem with
    | none => exact .ok refused
    | some sem =>
        dsimp only
        rw [if_pos (unusable sem index)]
        exact .ok refused
  · rw [index]
    dsimp only
    rw [if_neg owned]
    cases waiting : kernel.queues.elements (.blocked sem) with
    | nil =>
        rw [if_pos (isEmpty_iff.mpr waiting)]
        unfold increment
        split
        · exact .ok (.counts sem index owned waiting)
        · rename_i high
          exact .error ⟨rfl, sem, rfl, Int.not_lt.mp high⟩
    | cons first rest =>
        have notEmpty : ¬kernel.isEmpty (.blocked sem) = true := by simp [waiting]
        have member : first ∈ kernel.queues.elements (.blocked sem) := by simp [waiting]
        rw [if_neg notEmpty, first_eq waiting, ok_bind, del_addTail_eq orderly member]
        exact .ok (.wakes sem index owned first rest waiting)

/-! ## Destroying semaphores -/

/-- All waiters of the semaphores in `which` became ready with a destroy
indication, and nothing else changed except possibly the semaphores. -/
structure Woken (which : SemId → Prop) (before after : SequenceKernel) : Prop where
  woken : ∀ {t sem}, which sem → t ∈ before.queues.elements (.blocked sem) →
    after.core.task t = { before.core.task t with state := .ready, semdestroyed := true }
  others : ∀ {t}, (∀ sem, which sem → t ∉ before.queues.elements (.blocked sem)) →
    after.core.task t = before.core.task t
  emptied : ∀ {sem}, which sem → after.queues.elements (.blocked sem) = []
  blocked : ∀ {sem}, ¬which sem →
    after.queues.elements (.blocked sem) = before.queues.elements (.blocked sem)
  freequeue : after.queues.elements .freequeue = before.queues.elements .freequeue
  keyboardqueue : after.queues.elements .keyboardqueue = before.queues.elements .keyboardqueue
  readyqueue : ∃ ready, after.queues.elements .readyqueue =
      before.queues.elements .readyqueue ++ ready ∧
    ∀ t, t ∈ ready ↔ ∃ sem, which sem ∧ t ∈ before.queues.elements (.blocked sem)
  rest : after.core =
    { before.core with task := after.core.task, semArray := after.core.semArray }

namespace Woken

theorem none (kernel : SequenceKernel) {which : SemId → Prop} (nothing : ∀ sem, ¬which sem) :
    Woken which kernel kernel where
  woken chosen := absurd chosen (nothing _)
  others _ := rfl
  emptied chosen := absurd chosen (nothing _)
  blocked _ := rfl
  freequeue := rfl
  keyboardqueue := rfl
  readyqueue := ⟨[], by simp, by simp [nothing]⟩
  rest := rfl

theorem congr {which other : SemId → Prop} {before after : SequenceKernel}
    (woken : Woken which before after) (same : ∀ sem, other sem ↔ which sem) :
    Woken other before after := by
  have equal : other = which := funext fun sem => propext (same sem)
  rwa [equal]

theorem trans {first second : SemId → Prop} {before middle after : SequenceKernel}
    (orderly : Orderly before) (one : Woken first before middle)
    (two : Woken second middle after) (apart : ∀ sem, first sem → ¬second sem) :
    Woken (fun sem => first sem ∨ second sem) before after := by
  have kept : ∀ {sem}, second sem →
      middle.queues.elements (.blocked sem) = before.queues.elements (.blocked sem) :=
    fun chosen => one.blocked fun alsoFirst => apart _ alsoFirst chosen
  have waitsOnce : ∀ {t sem other}, t ∈ before.queues.elements (.blocked sem) →
      t ∈ before.queues.elements (.blocked other) → sem = other := by
    intro t sem other inOne inOther
    have same := orderly.placed.apart inOne inOther
    cases same
    rfl
  refine ⟨?_, ?_, ?_, ?_, ?_, ?_, ?_, ?_⟩
  · intro t sem chosen member
    rcases chosen with isFirst | isSecond
    · have notSecond : ∀ other, second other → t ∉ middle.queues.elements (.blocked other) := by
        intro other isSecond inOther
        rw [kept isSecond] at inOther
        have same := waitsOnce member inOther
        subst same
        exact apart sem isFirst isSecond
      rw [two.others notSecond, one.woken isFirst member]
    · have notFirst : ∀ other, first other → t ∉ before.queues.elements (.blocked other) := by
        intro other isFirst inOther
        have same := waitsOnce member inOther
        subst same
        exact apart sem isFirst isSecond
      rw [two.woken isSecond (by rwa [kept isSecond]), one.others notFirst]
  · intro t notWaiting
    rw [two.others, one.others]
    · exact fun sem isFirst => notWaiting sem (.inl isFirst)
    · intro sem isSecond
      rw [kept isSecond]
      exact notWaiting sem (.inr isSecond)
  · intro sem chosen
    by_cases isSecond : second sem
    · exact two.emptied isSecond
    · rw [two.blocked isSecond]
      exact one.emptied (chosen.resolve_right isSecond)
  · intro sem neither
    rw [two.blocked fun isSecond => neither (.inr isSecond),
      one.blocked fun isFirst => neither (.inl isFirst)]
  · rw [two.freequeue, one.freequeue]
  · rw [two.keyboardqueue, one.keyboardqueue]
  · rcases one.readyqueue with ⟨ready, atMiddle, members⟩
    rcases two.readyqueue with ⟨later, atAfter, laterMembers⟩
    refine ⟨ready ++ later, by rw [atAfter, atMiddle, List.append_assoc], fun t => ?_⟩
    rw [List.mem_append, members, laterMembers]
    constructor
    · rintro (⟨sem, isFirst, member⟩ | ⟨sem, isSecond, member⟩)
      · exact ⟨sem, .inl isFirst, member⟩
      · exact ⟨sem, .inr isSecond, kept isSecond ▸ member⟩
    · rintro ⟨sem, isFirst | isSecond, member⟩
      · exact .inl ⟨sem, isFirst, member⟩
      · exact .inr ⟨sem, isSecond, (kept isSecond).symm ▸ member⟩
  · rw [two.rest, one.rest]

end Woken

def Kernel.wakeDestroyed (kernel : SequenceKernel) (t : TaskId) : SequenceKernel :=
  ⟨(kernel.core.setSemdestroyed t true).setState t .ready, kernel.queues.toTail t .readyqueue⟩

theorem wakeDestroyed_orderly (orderly : Orderly kernel) (t : TaskId) :
    Orderly (kernel.wakeDestroyed t) :=
  orderly.toTail ⟨fun rest different => by simp [different], by simp, by simp, by simp⟩
    ⟨by simp [stateWithin], by simp, by simp⟩

theorem wakeDestroyed_woken (orderly : Orderly kernel) {sem : SemId} {first : TaskId}
    {rest : List TaskId} (waiting : kernel.queues.elements (.blocked sem) = first :: rest)
    {after : SequenceKernel} (later : Woken (· = sem) (kernel.wakeDestroyed first) after) :
    Woken (· = sem) kernel after := by
  have member : first ∈ kernel.queues.elements (.blocked sem) := by simp [waiting]
  have nodup := orderly.placed.nodup (.blocked sem)
  rw [waiting, List.nodup_cons] at nodup
  have elsewhere : ∀ {queue}, queue ≠ .blocked sem → first ∉ kernel.queues.elements queue :=
    fun different inside => different (orderly.placed.apart inside member)
  have remaining : (kernel.wakeDestroyed first).queues.elements (.blocked sem) = rest := by
    simp [Kernel.wakeDestroyed, Sequences.toTail, waiting]
  have unchanged : ∀ {queue}, queue ≠ .blocked sem → queue ≠ .readyqueue →
      (kernel.wakeDestroyed first).queues.elements queue = kernel.queues.elements queue := by
    intro queue notSem notReady
    simp [Kernel.wakeDestroyed, Sequences.toTail, notReady,
      List.erase_of_not_mem (elsewhere notSem)]
  have otherTask : ∀ {t}, t ≠ first →
      (kernel.wakeDestroyed first).core.task t = kernel.core.task t := by
    intro t different
    simp [Kernel.wakeDestroyed, different]
  refine ⟨?_, ?_, ?_, ?_, ?_, ?_, ?_, ?_⟩
  · intro t other chosen inside
    subst chosen
    by_cases isFirst : t = first
    · subst isFirst
      rw [later.others]
      · simp [Kernel.wakeDestroyed]
      · intro sem chosen inRest
        subst chosen
        rw [remaining] at inRest
        exact nodup.1 inRest
    · rw [waiting, List.mem_cons] at inside
      have inRest := inside.resolve_left isFirst
      rw [later.woken rfl (by rwa [remaining]), otherTask isFirst]
  · intro t notWaiting
    have notMember := notWaiting sem rfl
    rw [waiting, List.mem_cons, not_or] at notMember
    rw [later.others, otherTask notMember.1]
    intro other chosen inRest
    subst chosen
    rw [remaining] at inRest
    exact notMember.2 inRest
  · exact later.emptied
  · intro other different
    rw [later.blocked different]
    exact unchanged (fun same => different (by cases same; rfl)) Queue.noConfusion
  · rw [later.freequeue]
    exact unchanged Queue.noConfusion Queue.noConfusion
  · rw [later.keyboardqueue]
    exact unchanged Queue.noConfusion Queue.noConfusion
  · rcases later.readyqueue with ⟨ready, atAfter, members⟩
    have notReady : first ∉ kernel.queues.elements .readyqueue := elsewhere Queue.noConfusion
    have extended : (kernel.wakeDestroyed first).queues.elements .readyqueue =
        kernel.queues.elements .readyqueue ++ [first] := by
      simp [Kernel.wakeDestroyed, Sequences.toTail, List.erase_of_not_mem notReady]
    refine ⟨first :: ready, by rw [atAfter, extended, List.append_assoc]; rfl, fun t => ?_⟩
    simp only [List.mem_cons, members, remaining, waiting, exists_eq_left]
  · rw [later.rest]
    rfl

theorem Woken.empty {sem : SemId} (empty : kernel.queues.elements (.blocked sem) = []) :
    Woken (· = sem) kernel kernel where
  woken chosen inside := by
    rw [chosen, empty] at inside
    cases inside
  others _ := rfl
  emptied chosen := by rw [chosen, empty]
  blocked _ := rfl
  freequeue := rfl
  keyboardqueue := rfl
  readyqueue := ⟨[], by simp, by simp [empty]⟩
  rest := rfl

theorem releaseWaiters_outcome (orderly : Orderly kernel) (sem : SemId) (rounds : Nat)
    (enough : (kernel.queues.elements (.blocked sem)).length ≤ rounds) :
    ∃ after, releaseWaiters sem rounds kernel = .ok after ∧ Orderly after ∧
      Woken (· = sem) kernel after ∧ after.core.semArray = kernel.core.semArray := by
  induction rounds generalizing kernel with
  | zero =>
      have empty : kernel.queues.elements (.blocked sem) = [] :=
        List.eq_nil_of_length_eq_zero (by omega)
      exact ⟨kernel, by simp [releaseWaiters, empty], orderly, .empty empty, rfl⟩
  | succ rounds induction =>
      cases waiting : kernel.queues.elements (.blocked sem) with
      | nil => exact ⟨kernel, by simp [releaseWaiters, waiting], orderly, .empty waiting, rfl⟩
      | cons first rest =>
          have notEmpty : ¬kernel.isEmpty (.blocked sem) = true := by simp [waiting]
          have member : first ∈ kernel.queues.elements (.blocked sem) := by simp [waiting]
          have fewer : ((kernel.wakeDestroyed first).queues.elements (.blocked sem)).length ≤
              rounds := by
            rw [waiting, List.length_cons] at enough
            simp only [Kernel.wakeDestroyed, Sequences.toTail, Sequences.set_elements,
              reduceCtorEq, if_false, Sequences.remove_elements, waiting, List.erase_cons_head]
            omega
          rcases induction (wakeDestroyed_orderly orderly first) fewer with
            ⟨after, finished, orderlyAfter, woken, semArray⟩
          refine ⟨after, ?_, orderlyAfter, wakeDestroyed_woken orderly waiting woken, semArray⟩
          simp only [releaseWaiters]
          rw [if_neg notEmpty, first_eq waiting, ok_bind, del_addTail_eq orderly member]
          exact finished

inductive DestroyOutcome (kernel : SequenceKernel) (nSem : Int) : SequenceKernel × Int → Prop
  | refused (unusable : ∀ sem, semIndex nSem = some sem →
      (kernel.core.semArray sem).ownerPid = -1) :
      DestroyOutcome kernel nSem (kernel, -einval)
  | notOwner (sem : SemId) (index : semIndex nSem = some sem)
      (owned : (kernel.core.semArray sem).ownerPid ≠ -1)
      (other : (kernel.core.semArray sem).ownerPid ≠ kernel.currentTask.pid) :
      DestroyOutcome kernel nSem (kernel, -eperm)
  | destroyed (sem : SemId) (index : semIndex nSem = some sem)
      (owned : (kernel.core.semArray sem).ownerPid ≠ -1)
      (owner : (kernel.core.semArray sem).ownerPid = kernel.currentTask.pid)
      (after : SequenceKernel) (woken : Woken (· = sem) kernel after)
      (orderly : Orderly after)
      (semArray : ∀ other, after.core.semArray other =
        { kernel.core.semArray other with
          ownerPid := if other = sem then -1 else (kernel.core.semArray other).ownerPid }) :
      DestroyOutcome kernel nSem (after, 0)

theorem sysSemDestroy_outcome (orderly : Orderly kernel) (nSem : Int) :
    ∃ outcome, kernel.sysSemDestroy nSem = .ok outcome ∧ DestroyOutcome kernel nSem outcome := by
  unfold sysSemDestroy
  rcases usable_or_not kernel nSem with unusable | ⟨sem, index, owned⟩
  · refine ⟨_, ?_, .refused unusable⟩
    cases index : semIndex nSem with
    | none => rfl
    | some sem => simp [unusable sem index]
  · rw [index]
    dsimp only
    rw [if_neg owned]
    by_cases owner : (kernel.core.semArray sem).ownerPid = kernel.currentTask.pid
    · rw [if_neg (not_not.mpr owner)]
      rcases releaseWaiters_outcome orderly sem nrTasks (orderly.placed.length_le _) with
        ⟨after, finished, orderlyAfter, woken, semArray⟩
      have emptied := woken.emptied rfl
      rw [finished, ok_bind]
      refine ⟨_, rfl, .destroyed sem index owned owner _ ?_ ?_ ?_⟩
      · exact ⟨woken.woken, woken.others, woken.emptied, woken.blocked, woken.freequeue,
          woken.keyboardqueue, woken.readyqueue, by rw [mapCore, woken.rest]; rfl⟩
      · refine ⟨orderlyAfter.placed, ?_, orderlyAfter.idleAllocated, orderlyAfter.idleAwake,
          orderlyAfter.idleStack⟩
        intro other unowned
        by_cases same : other = sem
        · rw [same]
          exact emptied
        · refine orderlyAfter.unowned other ?_
          simpa [mapCore, same] using unowned
      · intro other
        simp [mapCore, semArray]
    · rw [if_pos owner]
      exact ⟨_, rfl, .notOwner sem index owned owner⟩

/-! ## Exit -/

theorem Woken.not_linked {which : SemId → Prop} {before after : SequenceKernel} {t : TaskId}
    (woken : Woken which before after) (unlinked : ¬before.queues.Linked t) :
    ¬after.queues.Linked t := by
  intro linked
  apply unlinked
  rcases linked with ⟨queue, member⟩
  cases queue with
  | freequeue => exact ⟨.freequeue, by rwa [woken.freequeue] at member⟩
  | keyboardqueue => exact ⟨.keyboardqueue, by rwa [woken.keyboardqueue] at member⟩
  | readyqueue =>
      rcases woken.readyqueue with ⟨ready, atAfter, members⟩
      rw [atAfter, List.mem_append, members] at member
      rcases member with old | ⟨sem, -, waiting⟩
      · exact ⟨.readyqueue, old⟩
      · exact ⟨.blocked sem, waiting⟩
  | blocked sem =>
      by_cases chosen : which sem
      · rw [woken.emptied chosen] at member
        cases member
      · exact ⟨.blocked sem, by rwa [woken.blocked chosen] at member⟩

theorem Woken.current_eq {which : SemId → Prop} {before after : SequenceKernel}
    (woken : Woken which before after) : after.core.current = before.core.current := by
  rw [woken.rest]

theorem Woken.current_unlinked {which : SemId → Prop} {before after : SequenceKernel}
    (woken : Woken which before after) (disciplined : Disciplined before) :
    ¬after.queues.Linked after.core.current := by
  rw [woken.current_eq]
  exact woken.not_linked disciplined.currentUnlinked

theorem Woken.task_unlinked {which : SemId → Prop} {before after : SequenceKernel} {t : TaskId}
    (woken : Woken which before after) (unlinked : ¬before.queues.Linked t) :
    after.core.task t = before.core.task t :=
  woken.others fun sem _ member => unlinked ⟨.blocked sem, member⟩

def Kernel.OwnedByCurrent (kernel : SequenceKernel) (sem : SemId) : Prop :=
  (kernel.core.semArray sem).ownerPid ≠ -1 ∧
    (kernel.core.semArray sem).ownerPid = kernel.currentTask.pid

/-- A kernel in which `which` of the semaphores have been destroyed. -/
structure Destroyed (which : SemId → Prop) (before after : SequenceKernel) : Prop where
  orderly : Orderly after
  woken : Woken which before after
  gone : ∀ {sem}, which sem → after.core.semArray sem =
    { before.core.semArray sem with ownerPid := -1 }
  kept : ∀ {sem}, ¬which sem → after.core.semArray sem = before.core.semArray sem

theorem semIndex_val (sem : SemId) : semIndex sem.val = some sem := by
  have range : sem.val < 20 := sem.isLt
  simp only [semIndex]
  rw [dif_pos ⟨by omega, by exact_mod_cast range⟩]
  simp

theorem below_succ_iff {sem other : SemId} {owned : SemId → Prop} :
    other.val < sem.val + 1 ∧ owned other ↔
      other.val < sem.val ∧ owned other ∨ other = sem ∧ owned sem := by
  constructor
  · rintro ⟨below, own⟩
    by_cases same : other = sem
    · exact .inr ⟨same, same ▸ own⟩
    · have differ := Fin.val_ne_of_ne same
      exact .inl ⟨by omega, own⟩
  · rintro (⟨below, own⟩ | ⟨same, own⟩)
    · exact ⟨Nat.lt_succ_of_lt below, own⟩
    · subst same
      exact ⟨Nat.lt_succ_self _, own⟩

theorem destroyOwned_outcome (disciplined : Disciplined kernel) (sem : SemId)
    {middle : SequenceKernel}
    (earlier : Destroyed (fun other => other.val < sem.val ∧ kernel.OwnedByCurrent other)
      kernel middle) :
    ∃ after, destroyOwned sem.val middle = .ok after ∧
      Destroyed (fun other => other.val < sem.val + 1 ∧ kernel.OwnedByCurrent other)
        kernel after := by
  have pid : middle.currentTask.pid = kernel.currentTask.pid := by
    rw [currentTask, earlier.woken.current_eq,
      earlier.woken.task_unlinked disciplined.currentUnlinked]
    rfl
  have here : middle.core.semArray sem = kernel.core.semArray sem :=
    earlier.kept fun both => Nat.lt_irrefl _ both.1
  have skipped : ¬kernel.OwnedByCurrent sem →
      Destroyed (fun other => other.val < sem.val + 1 ∧ kernel.OwnedByCurrent other)
        kernel middle := by
    intro notOwned
    have same : (fun other : SemId => other.val < sem.val + 1 ∧ kernel.OwnedByCurrent other) =
        fun other => other.val < sem.val ∧ kernel.OwnedByCurrent other := by
      funext other
      apply propext
      exact below_succ_iff.trans (or_iff_left fun own => notOwned own.2)
    rw [same]
    exact earlier
  unfold destroyOwned
  rw [semIndex_val]
  dsimp only
  rw [here, pid]
  by_cases mine : (kernel.core.semArray sem).ownerPid = kernel.currentTask.pid
  · rw [if_pos mine]
    rcases sysSemDestroy_outcome earlier.orderly sem.val with ⟨outcome, finished, cases⟩
    rw [finished, ok_bind]
    refine ⟨outcome.1, rfl, ?_⟩
    cases cases with
    | refused unusable =>
        apply skipped
        intro owned
        exact owned.1 (here ▸ unusable sem (semIndex_val sem))
    | notOwner other index owned notMine =>
        rw [semIndex_val] at index
        cases index
        rw [here, pid] at notMine
        exact absurd mine notMine
    | destroyed other index owned owner after woken orderly semArray =>
        rw [semIndex_val] at index
        cases index
        rw [here] at owned
        have combined := earlier.woken.trans disciplined.toOrderly woken
          fun other both same => Nat.lt_irrefl _ (same ▸ both.1)
        have own : kernel.OwnedByCurrent sem := ⟨owned, mine⟩
        refine ⟨orderly, combined.congr fun other => ?_, ?_, ?_⟩
        · exact below_succ_iff.trans (or_congr_right (and_iff_left own))
        · intro other both
          rw [semArray]
          by_cases same : other = sem
          · subst same
            rw [if_pos rfl, here]
          · have before := (below_succ_iff.mp both).resolve_right fun last => same last.1
            rw [if_neg same, earlier.gone before]
        · intro other notBoth
          have different : other ≠ sem :=
            fun same => notBoth (below_succ_iff.mpr (.inr ⟨same, own⟩))
          rw [semArray, if_neg different, earlier.kept]
          exact fun both => notBoth (below_succ_iff.mpr (.inl both))
  · rw [if_neg mine]
    exact ⟨middle, rfl, skipped fun owned => mine owned.2⟩

theorem destroyAll_outcome (disciplined : Disciplined kernel) :
    ∃ after, countedLoop destroyOwned 0 nrSemaphores kernel = .ok after ∧
      Destroyed kernel.OwnedByCurrent kernel after := by
  have initially : Destroyed (fun other => other.val < 0 ∧ kernel.OwnedByCurrent other) kernel
      kernel := ⟨disciplined.toOrderly, .none kernel (by simp), by simp, by simp⟩
  have loop : ∃ after, countedLoop destroyOwned 0 nrSemaphores kernel = .ok after ∧
      Destroyed (fun other => other.val < 0 + nrSemaphores ∧ kernel.OwnedByCurrent other)
        kernel after := by
    refine countedLoop_total (fun index middle => Destroyed
      (fun other => other.val < index ∧ kernel.OwnedByCurrent other) kernel middle) initially ?_
    intro index middle _ below earlier
    exact destroyOwned_outcome disciplined ⟨index, by omega⟩ earlier
  rcases loop with ⟨after, finished, destroyed⟩
  refine ⟨after, finished, ?_⟩
  have same : (fun other : SemId => other.val < 0 + nrSemaphores ∧ kernel.OwnedByCurrent other) =
      kernel.OwnedByCurrent := by
    funext other
    have range := other.isLt
    apply propext
    constructor
    · exact fun both => both.2
    · exact fun owned => ⟨by omega, owned⟩
  rw [same] at destroyed
  exact destroyed

def Kernel.freed (kernel : SequenceKernel) (mm : Mm) : SequenceKernel :=
  ⟨(kernel.core.setMm mm).modifyTask kernel.core.current fun union => { union with pid := -1 },
    kernel.queues.toTail kernel.core.current .freequeue⟩

def Kernel.retire (kernel : SequenceKernel) (mm : Mm) : SequenceKernel :=
  (kernel.freed mm).dispatch [.sysExit]

@[simp] theorem retire_frame (kernel : SequenceKernel) (mm : Mm) :
    (kernel.retire mm).core.mm = mm ∧
      (kernel.retire mm).core.idleTask = kernel.core.idleTask ∧
      (kernel.retire mm).core.semArray = kernel.core.semArray ∧
      (kernel.retire mm).core.globalPID = kernel.core.globalPID ∧
      (kernel.retire mm).core.inKernel = true := by
  simp [retire, freed]

inductive ExitOutcome (kernel : SequenceKernel) : SequenceKernel → Prop
  | exited (released : SequenceKernel) (destroyed : Destroyed kernel.OwnedByCurrent kernel released)
      (mm : Mm) (freed : kernel.core.mm.releaseDir kernel.currentTask.dirPagesBaseAddr
        kernel.currentTask.posInDirCounter = .ok mm) :
      ExitOutcome kernel (released.retire mm)

theorem freed_agrees (orderly : Orderly kernel)
    (unlinked : ¬kernel.queues.Linked kernel.core.current) (mm : Mm) :
    AgreesBut kernel.core.current (kernel.freed mm).core kernel.core ∧
      ((kernel.freed mm).core.task kernel.core.current).state = .run := by
  have running : (kernel.core.task kernel.core.current).state = .run :=
    orderly.placed.outside unlinked
  refine ⟨⟨fun rest different => by simp [freed, different], by simp [freed], by simp [freed], ?_⟩,
    by simp [freed, running]⟩
  by_cases same : kernel.core.idleTask = kernel.core.current <;> simp [freed, same]

theorem freed_placed (orderly : Orderly kernel)
    (unlinked : ¬kernel.queues.Linked kernel.core.current) (mm : Mm) :
    Placed (kernel.freed mm).states (kernel.freed mm).queues := by
  rcases freed_agrees orderly unlinked mm with ⟨agrees, running⟩
  exact orderly.placed.toTail .freequeue agrees.states running

theorem retire_elements (orderly : Orderly kernel)
    (unlinked : ¬kernel.queues.Linked kernel.core.current) (mm : Mm) {other : Queue}
    (notReady : other ≠ .readyqueue) :
    (kernel.retire mm).queues.elements other =
      if other = .freequeue then kernel.queues.elements .freequeue ++ [kernel.core.current]
      else kernel.queues.elements other := by
  rw [retire, dispatch_elements (freed_placed orderly unlinked mm) _ notReady]
  exact Sequences.toTail_unlinked unlinked

theorem retire_disciplined (orderly : Orderly kernel)
    (unlinked : ¬kernel.queues.Linked kernel.core.current)
    (notIdle : kernel.core.current ≠ kernel.core.idleTask) (mm : Mm) :
    Disciplined (kernel.retire mm) := by
  rcases freed_agrees orderly unlinked mm with ⟨agrees, running⟩
  have enters : Orderly.MayEnter (kernel.freed mm).core kernel.core.current .freequeue :=
    ⟨running, fun _ => by simpa [freed] using notIdle, fun sem same => by cases same⟩
  refine dispatch_disciplined (orderly.toTail agrees enters) fun same => ?_
  exact absurd (by simpa [freed] using same) notIdle

theorem sysExit_eq (disciplined : Disciplined kernel) :
    ∃ released, Destroyed kernel.OwnedByCurrent kernel released ∧
      kernel.sysExit = (do
        let mm ← kernel.core.mm.releaseDir kernel.currentTask.dirPagesBaseAddr
          kernel.currentTask.posInDirCounter
        return released.retire mm) := by
  unfold sysExit
  rcases destroyAll_outcome disciplined with ⟨released, finished, destroyed⟩
  have current := destroyed.woken.current_eq
  have mm : released.core.mm = kernel.core.mm := by rw [destroyed.woken.rest]
  have unlinked := destroyed.woken.current_unlinked disciplined
  have task : released.currentTask = kernel.currentTask := by
    rw [currentTask, currentTask, current]
    exact destroyed.woken.task_unlinked disciplined.currentUnlinked
  refine ⟨released, destroyed, ?_⟩
  rw [finished, ok_bind]
  dsimp only
  rw [task, mm]
  cases kernel.core.mm.releaseDir kernel.currentTask.dirPagesBaseAddr
      kernel.currentTask.posInDirCounter with
  | error failure => rfl
  | ok mm =>
      rw [ok_bind, ok_bind]
      have unlinked' : ¬Sequences.Linked (Kernel.queues ⟨(released.freed mm).core,
        released.queues⟩) released.core.current := unlinked
      show (Kernel.addTail ⟨(released.freed mm).core, released.queues⟩
        released.core.current .freequeue >>= fun kernel => Kernel.schedNextRr kernel [.sysExit]) = _
      rw [addTail_eq unlinked', ok_bind]
      show Kernel.schedNextRr (released.freed mm) [.sysExit] = _
      rw [schedNextRr_eq (freed_placed destroyed.orderly unlinked mm)]
      rfl

theorem sysExit_outcome (disciplined : Disciplined kernel) :
    Ensures Fault.Elsewhere (ExitOutcome kernel) kernel.sysExit := by
  rcases sysExit_eq disciplined with ⟨released, destroyed, exits⟩
  rw [exits]
  cases freed : kernel.core.mm.releaseDir kernel.currentTask.dirPagesBaseAddr
      kernel.currentTask.posInDirCounter with
  | error failure => exact .error (.inl ((Mm.releaseDir_failsOnly _ _ _).of_error freed))
  | ok mm => exact .ok (.exited released destroyed mm freed)

/-! ## Process creation -/

/-- The memory part of `sys_fork`, for the current task. -/
def Core.forkPages (core : Core) : Except Fault (Mm × Bool) :=
  let father := core.task core.current
  core.mm.allocateDir.1.forkPages (core.mm.freeSlot.getD father.dirPagesBaseAddr)
    father.dirPagesBaseAddr father.posInDirCounter

/-- The variables of `sys_fork` when its memory part is done. -/
def Core.forkTo (core : Core) (child : TaskId) (mm : Mm) : Core :=
  ((core.copyUnion child).allocateDir child).setMm mm

@[simp] theorem Core.forkTo_task (core : Core) (child t : TaskId) (mm : Mm) :
    (core.forkTo child mm).task t =
      { (if t = child then core.task core.current else core.task t) with
        dirPagesBaseAddr :=
          if t = child then core.mm.freeSlot.getD (core.task core.current).dirPagesBaseAddr
          else (core.task t).dirPagesBaseAddr
        posInDirCounter :=
          if t = child then core.mm.freeSlot.getD (core.task core.current).posInDirCounter
          else (core.task t).posInDirCounter } := by
  by_cases same : t = child <;> simp [Core.forkTo, same]

@[simp] theorem Core.forkTo_frame (core : Core) (child : TaskId) (mm : Mm) :
    (core.forkTo child mm).mm = mm ∧
      (core.forkTo child mm).idleTask = core.idleTask ∧
      (core.forkTo child mm).current = core.current ∧
      (core.forkTo child mm).inKernel = core.inKernel ∧
      (core.forkTo child mm).semArray = core.semArray ∧
      (core.forkTo child mm).globalPID = core.globalPID ∧
      (core.forkTo child mm).circbuff = core.circbuff ∧
      (core.forkTo child mm).keyboardReadersCount = core.keyboardReadersCount ∧
      (core.forkTo child mm).leftTicks = core.leftTicks := by
  simp [Core.forkTo]

def Kernel.forked (kernel : SequenceKernel) (child : TaskId) (mm : Mm) : SequenceKernel :=
  ⟨(kernel.core.forkTo child mm).adopt child (kernel.core.globalPID + 1),
    kernel.queues.toTail child .readyqueue⟩

def Kernel.forkFailed (kernel : SequenceKernel) (child : TaskId) (mm : Mm) : SequenceKernel :=
  ⟨kernel.core.forkTo child mm, kernel.queues.remove child⟩

theorem sysFork_full (empty : kernel.queues.elements .freequeue = []) :
    kernel.sysFork = .ok (kernel, -eagain) := by
  unfold sysFork
  rw [if_pos (isEmpty_iff.mpr empty)]
  rfl

theorem child_ne_current (disciplined : Disciplined kernel) {child : TaskId} {queue : Queue}
    (member : child ∈ kernel.queues.elements queue) : child ≠ kernel.core.current := by
  intro same
  subst same
  exact disciplined.currentUnlinked ⟨queue, member⟩

theorem sysFork_eq (disciplined : Disciplined kernel) {child : TaskId} {rest : List TaskId}
    (free : kernel.queues.elements .freequeue = child :: rest) :
    kernel.sysFork = (do
      let outcome ← kernel.core.forkPages
      if outcome.2 then
        let _ ← increment kernel.core.globalPID
        return (kernel.forked child outcome.1, kernel.core.globalPID)
      else return (kernel.forkFailed child outcome.1, -enomem)) := by
  have notEmpty : ¬kernel.isEmpty .freequeue = true := by simp [free]
  have member : child ∈ kernel.queues.elements .freequeue := by simp [free]
  have different := (child_ne_current disciplined member).symm
  have removed : ¬(kernel.queues.remove child).Linked child :=
    disciplined.placed.remove_not_linked
  unfold sysFork
  rw [if_neg notEmpty, first_eq free, ok_bind, del_eq ⟨_, member⟩, ok_bind]
  have memory : Mm.forkPages
      (((kernel.core.copyUnion child).allocateDir child).task child).dirPagesBaseAddr
      (((kernel.core.copyUnion child).allocateDir child).task kernel.core.current).dirPagesBaseAddr
      (((kernel.core.copyUnion child).allocateDir child).task kernel.core.current).posInDirCounter
      ((kernel.core.copyUnion child).allocateDir child).mm = kernel.core.forkPages := by
    simp [Core.forkPages, different]
  simp only [mapCore, currentTask, Core.allocateDir_frame, Core.copyUnion_frame]
  rw [memory]
  generalize kernel.core.forkPages = outcome
  cases outcome with
  | error failure => rfl
  | ok outcome =>
      rcases outcome with ⟨mm, enough⟩
      cases enough with
      | false =>
          simp only [ok_bind, Bool.false_eq_true, if_false, forkFailed, Core.forkTo]
      | true =>
          have globalPID : (((kernel.core.copyUnion child).allocateDir child).setMm mm).globalPID =
              kernel.core.globalPID := by simp
          simp only [ok_bind, globalPID, if_true]
          unfold increment
          by_cases range : kernel.core.globalPID < 2147483647
          · have unlinked : ¬Sequences.Linked (Kernel.queues
                ⟨(kernel.core.forkTo child mm).adopt child (kernel.core.globalPID + 1),
                  kernel.queues.remove child⟩) child := removed
            rw [if_pos range, ok_bind, ok_bind]
            show (Kernel.addTail ⟨(kernel.core.forkTo child mm).adopt child
              (kernel.core.globalPID + 1), kernel.queues.remove child⟩ child .readyqueue >>= _) = _
            rw [addTail_eq unlinked, ok_bind]
            simp only [forked, Sequences.toTail, Sequences.remove_unlinked removed]
          · rw [if_neg range]
            rfl

inductive ForkOutcome (kernel : SequenceKernel) : SequenceKernel × Int → Prop
  | full (empty : kernel.queues.elements .freequeue = []) : ForkOutcome kernel (kernel, -eagain)
  | noMemory (child : TaskId) (rest : List TaskId)
      (free : kernel.queues.elements .freequeue = child :: rest) (mm : Mm)
      (outOfFrames : kernel.core.forkPages = .ok (mm, false)) :
      ForkOutcome kernel (kernel.forkFailed child mm, -enomem)
  | forked (child : TaskId) (rest : List TaskId)
      (free : kernel.queues.elements .freequeue = child :: rest) (mm : Mm)
      (copied : kernel.core.forkPages = .ok (mm, true)) :
      ForkOutcome kernel (kernel.forked child mm, kernel.core.globalPID)

theorem sysFork_outcome (disciplined : Disciplined kernel) :
    Ensures Fault.Elsewhere (ForkOutcome kernel) kernel.sysFork := by
  cases free : kernel.queues.elements .freequeue with
  | nil =>
      rw [sysFork_full free]
      exact .ok (.full free)
  | cons child rest =>
      rw [sysFork_eq disciplined free]
      have fails : FailsOnly Mm.OfMemory kernel.core.forkPages := Mm.forkPages_failsOnly _ _ _ _
      have noMemory := ForkOutcome.noMemory child rest free
      have forked := ForkOutcome.forked child rest free
      generalize kernel.core.forkPages = outcome at fails noMemory forked
      cases outcome with
      | error failure => exact .error (.inl (fails.of_error rfl))
      | ok outcome =>
          rcases outcome with ⟨mm, enough⟩
          cases enough with
          | false => exact .ok (noMemory mm rfl)
          | true =>
              simp only [ok_bind, if_true]
              unfold increment
              split
              · exact .ok (forked mm rfl)
              · exact .error (.inr rfl)

/-- The variables of `sys_clone` before the new task is numbered. -/
def Core.cloneTo (core : Core) (child : TaskId) : Core :=
  let core := core.copyUnion child
  core.setMm (core.mm.retainDir (core.task core.current).posInDirCounter)

def Kernel.cloned (kernel : SequenceKernel) (child : TaskId) (function stack : Nat) :
    SequenceKernel :=
  ⟨((kernel.core.cloneTo child).adopt child (kernel.core.globalPID + 1)).modifyTask child
    fun union => { union with context := { union.context with eip := function, esp := stack } },
    kernel.queues.toTail child .readyqueue⟩

inductive CloneOutcome (kernel : SequenceKernel) (function stack : Nat) :
    SequenceKernel × Int → Prop
  | refused (error : Int) (negative : error < 0) :
      CloneOutcome kernel function stack (kernel, error)
  | cloned (child : TaskId) (rest : List TaskId)
      (free : kernel.queues.elements .freequeue = child :: rest) :
      CloneOutcome kernel function stack
        (kernel.cloned child function stack, kernel.core.globalPID)

theorem sysClone_outcome (disciplined : Disciplined kernel) (function stack : Nat) :
    Ensures Fault.Elsewhere (CloneOutcome kernel function stack)
      (kernel.sysClone function stack) := by
  unfold sysClone
  cases free : kernel.queues.elements .freequeue with
  | nil =>
      rw [if_pos (isEmpty_iff.mpr free)]
      exact .ok (.refused _ (by decide))
  | cons child rest =>
      have notEmpty : ¬kernel.isEmpty .freequeue = true := by simp [free]
      have member : child ∈ kernel.queues.elements .freequeue := by simp [free]
      have removed : ¬(kernel.queues.remove child).Linked child :=
        disciplined.placed.remove_not_linked
      rw [if_neg notEmpty]
      split
      · exact .ok (.refused _ (by decide))
      · split
        · exact .ok (.refused _ (by decide))
        · rw [first_eq free, ok_bind, del_eq ⟨_, member⟩, ok_bind]
          dsimp only
          show Ensures _ _ (increment kernel.core.globalPID >>= _)
          unfold increment
          split
          · have unlinked : ¬Sequences.Linked (Kernel.queues
                ⟨(kernel.core.cloneTo child).adopt child (kernel.core.globalPID + 1),
                  kernel.queues.remove child⟩) child := removed
            rw [ok_bind]
            show Ensures _ _ (Kernel.addTail ⟨(kernel.core.cloneTo child).adopt child
              (kernel.core.globalPID + 1), kernel.queues.remove child⟩ child .readyqueue >>= _)
            rw [addTail_eq unlinked, ok_bind]
            have outcome : CloneOutcome kernel function stack _ := .cloned child rest free
            simp only [Kernel.cloned, Sequences.toTail] at outcome
            simp only [mapCore, Sequences.toTail, Sequences.remove_unlinked removed]
            exact .ok outcome
          · exact .error (.inr rfl)

/-! ## The heap -/

inductive SbrkOutcome (kernel : SequenceKernel) (amount : Int) : SequenceKernel × Int → Prop
  | refused (mm : Mm) (outcome : kernel.core.mm.sbrk kernel.currentTask.dirPagesBaseAddr
        kernel.currentTask.posInDirCounter amount = .ok (mm, none)) :
      SbrkOutcome kernel amount (⟨kernel.core.setMm mm, kernel.queues⟩, -enomem)
  | moved (mm : Mm) (last : Nat) (outcome : kernel.core.mm.sbrk
        kernel.currentTask.dirPagesBaseAddr kernel.currentTask.posInDirCounter amount =
        .ok (mm, some last)) :
      SbrkOutcome kernel amount (⟨kernel.core.setMm mm, kernel.queues⟩, last)

theorem sysSbrk_outcome (kernel : SequenceKernel) (amount : Int) :
    Ensures Fault.Elsewhere (SbrkOutcome kernel amount) (kernel.sysSbrk amount) := by
  have fails := Mm.sbrk_failsOnly kernel.currentTask.dirPagesBaseAddr
    kernel.currentTask.posInDirCounter amount kernel.core.mm
  have refused := @SbrkOutcome.refused kernel amount
  have moved := @SbrkOutcome.moved kernel amount
  unfold sysSbrk
  dsimp only
  generalize kernel.core.mm.sbrk _ _ _ = outcome at fails refused moved ⊢
  cases outcome with
  | error failure => exact .error (.inl (fails.of_error rfl))
  | ok outcome =>
      rcases outcome with ⟨mm, last⟩
      cases last with
      | none => exact .ok (refused mm rfl)
      | some last => exact .ok (moved mm last rfl)

end Zeos
