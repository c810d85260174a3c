import Zeos.Boot
import Zeos.Interrupts
import Zeos.Foundation.TransitionSystem

/-! # Steps and runs

The outcomes of the routines put together to the effects of whole steps, the
discipline as an invariant of runs, and the correspondence between the runs of
the two kernels.
-/

namespace Zeos

open Foundation Kernel

/-- The variables that matter at the entry to the kernel: a tick is counted
before anything is decided. -/
def Core.entered (core : Core) (event : Event) : Core :=
  let core := { core with inKernel := false }
  if event = .clock then core.updateSchedDataRr else core

@[simp] theorem Core.entered_frame (core : Core) (event : Event) :
    (core.entered event).mm = core.mm ∧
      (core.entered event).idleTask = core.idleTask ∧
      (core.entered event).current = core.current ∧
      (core.entered event).inKernel = false ∧
      (core.entered event).semArray = core.semArray ∧
      (core.entered event).globalPID = core.globalPID ∧
      (core.entered event).circbuff = core.circbuff ∧
      (core.entered event).keyboardReadersCount = core.keyboardReadersCount ∧
      (core.entered event).task = core.task := by
  unfold entered
  split <;> exact ⟨rfl, rfl, rfl, rfl, rfl, rfl, rfl, rfl, rfl⟩

theorem Core.entered_eq {core : Core} {event : Event} (inUserMode : core.inKernel = false)
    (notClock : event ≠ .clock) : core.entered event = core := by
  unfold entered
  rw [if_neg notClock, ← inUserMode]

def KeyAccepted (kernel : SequenceKernel) (llegit : UInt8) : Prop :=
  ¬kernel.core.circbuff.full = true ∧ llegit.toNat < 128 ∧
    kernel.queues.elements .keyboardqueue ≠ []

/-- The effects of a step, from the kernel as it is after the entry from user
mode, respectively after the switch. -/
inductive Effect (kernel : SequenceKernel) : Event → SequenceKernel → Prop
  | resume {after : SequenceKernel} (outcome : ResumeOutcome kernel after) :
      Effect kernel .resume after
  | clock {after : SequenceKernel} (outcome : ClockOutcome kernel after) :
      Effect kernel .clock after.leaveUnlessSwitched
  | ignored (llegit : UInt8) (refused : ¬KeyAccepted kernel llegit) :
      Effect kernel (.keyboard llegit) (kernel.mapCore Core.leaveKernel)
  | keyboard (llegit : UInt8) {after : SequenceKernel} (accepted : KeyAccepted kernel llegit)
      (outcome : KeyOutcome kernel (charOf llegit) after) :
      Effect kernel (.keyboard llegit) after.leaveUnlessSwitched
  | getpid (result : Int) : Effect kernel .getpid (finishCall (kernel, some result))
  | gettime (result : Int) : Effect kernel .gettime (finishCall (kernel, some result))
  | fork {outcome : SequenceKernel × Int} (forked : ForkOutcome kernel outcome) :
      Effect kernel .fork (finishCall (outcome.1, some outcome.2))
  | clone (function stack : Nat) {outcome : SequenceKernel × Int}
      (cloned : CloneOutcome kernel function stack outcome) :
      Effect kernel (.clone function stack) (finishCall (outcome.1, some outcome.2))
  | exit {after : SequenceKernel} (exited : ExitOutcome kernel after) : Effect kernel .exit after
  | sbrk (amount : Int) {outcome : SequenceKernel × Int}
      (moved : SbrkOutcome kernel amount outcome) :
      Effect kernel (.sbrk amount) (finishCall (outcome.1, some outcome.2))
  | semInit (nSem : Int) (value : Nat) {outcome : SequenceKernel × Int}
      (initialised : InitOutcome kernel nSem value outcome) :
      Effect kernel (.semInit nSem value) (finishCall (outcome.1, some outcome.2))
  | semWait (nSem : Int) {outcome : SequenceKernel × Option Int}
      (waited : WaitOutcome kernel nSem outcome) :
      Effect kernel (.semWait nSem) (finishCall outcome)
  | semSignal (nSem : Int) {outcome : SequenceKernel × Int}
      (signalled : SignalOutcome kernel nSem outcome) :
      Effect kernel (.semSignal nSem) (finishCall (outcome.1, some outcome.2))
  | semDestroy (nSem : Int) {outcome : SequenceKernel × Int}
      (destroyed : DestroyOutcome kernel nSem outcome) :
      Effect kernel (.semDestroy nSem) (finishCall (outcome.1, some outcome.2))
  | read (fd : Int) (buffer : Nat) (count i : Int) {outcome : SequenceKernel × Option Int}
      (call : ReadCall kernel fd buffer count i outcome) :
      Effect kernel (.read fd buffer count i) (finishCall outcome)
  | write (fd : Int) (buffer : Nat) (size result : Int) :
      Effect kernel (.write fd buffer size) (finishCall (kernel, some result))
  | getStats (pid : Int) (st : Nat) {outcome : SequenceKernel × Int}
      (told : StatsOutcome kernel pid st outcome) :
      Effect kernel (.getStats pid st) (finishCall (outcome.1, some outcome.2))
  | niSyscall : Effect kernel .niSyscall (finishCall (kernel, some (-enosys)))

def StepEffect (kernel : SequenceKernel) (event : Event) (after : SequenceKernel) : Prop :=
  ∃ core, SameButStats core (kernel.core.entered event) ∧
    Effect ⟨core, kernel.queues⟩ event after

variable {kernel : SequenceKernel}

theorem enterSystem_entered (inUserMode : kernel.core.inKernel = false) {event : Event}
    (notClock : event ≠ .clock) :
    SameButStats kernel.core.enterSystem (kernel.core.entered event) := by
  rw [Core.entered_eq inUserMode notClock]
  exact .charge _ _

theorem systemCall_effect (inUserMode : kernel.core.inKernel = false)
    {body : SequenceKernel → Except Fault (SequenceKernel × Option Int)} {event : Event}
    (notClock : event ≠ .clock)
    (calls : Ensures Fault.Elsewhere
      (fun outcome => Effect ⟨kernel.core.enterSystem, kernel.queues⟩ event (finishCall outcome))
      (body ⟨kernel.core.enterSystem, kernel.queues⟩)) :
    Ensures Fault.Elsewhere (StepEffect kernel event) (kernel.systemCall body) :=
  calls.bind fun _ effect => .ok ⟨_, enterSystem_entered inUserMode notClock, effect⟩

theorem returning_effect {body : SequenceKernel → Except Fault (SequenceKernel × Int)}
    {Post : SequenceKernel × Int → Prop} {Effected : SequenceKernel × Option Int → Prop}
    (calls : Ensures Fault.Elsewhere Post (body kernel))
    (effects : ∀ outcome, Post outcome → Effected (outcome.1, some outcome.2)) :
    Ensures Fault.Elsewhere Effected (returning body kernel) :=
  calls.bind fun outcome post => .ok (effects outcome post)

theorem Disciplined.entered (disciplined : Disciplined kernel) (event : Event) :
    Disciplined ⟨kernel.core.entered event, kernel.queues⟩ :=
  disciplined.congr 0 ⟨fun _ _ => by simp, by simp, by simp, by simp⟩ (by simp) (by simp)

theorem keyboardRoutine_effect (disciplined : Disciplined kernel)
    (inUserMode : kernel.core.inKernel = false) (llegit : UInt8) :
    Ensures Fault.Elsewhere (StepEffect kernel (.keyboard llegit))
      (kernel.keyboardRoutine llegit) := by
  have entered : Disciplined ⟨kernel.core.enterSystem, kernel.queues⟩ :=
    disciplined.sameButStats (.charge _ _)
  have same : SameButStats kernel.core.enterSystem (kernel.core.entered (.keyboard llegit)) :=
    enterSystem_entered inUserMode Event.noConfusion
  unfold keyboardRoutine
  dsimp only
  split
  · rename_i refused
    have stays : Kernel.leaveUnlessSwitched (kernel.mapCore Core.enterSystem) =
        Kernel.mapCore ⟨kernel.core.enterSystem, kernel.queues⟩ Core.leaveKernel := by
      have inKernel : (kernel.mapCore Core.enterSystem).core.inKernel = false := by
        simpa [mapCore] using inUserMode
      rw [leaveUnlessSwitched, inKernel]
      rfl
    rw [stays]
    apply Ensures.ok
    exists kernel.core.enterSystem
    apply And.intro same
    apply Effect.ignored
    intro accepted
    rcases refused with full | high | empty
    · exact accepted.1 full
    · exact Nat.not_le.mpr accepted.2.1 high
    · exact accepted.2.2 (isEmpty_iff.mp empty)
  · rename_i accepted
    rw [not_or, not_or] at accepted
    rcases deliverKey_outcome entered (charOf llegit) accepted.2.2 with ⟨after, delivered, outcome⟩
    rw [show (kernel.mapCore Core.enterSystem).deliverKey (charOf llegit) = _ from delivered]
    apply Ensures.ok
    exists kernel.core.enterSystem
    apply And.intro same
    apply Effect.keyboard llegit _ outcome
    exact ⟨accepted.1, Nat.not_le.mp accepted.2.1, fun empty =>
      accepted.2.2 (isEmpty_iff.mpr empty)⟩

theorem clkRoutine_effect (disciplined : Disciplined kernel)
    (inUserMode : kernel.core.inKernel = false) :
    Ensures Fault.Elsewhere (StepEffect kernel .clock) kernel.clkRoutine := by
  let ticked : Core :=
    { kernel.core.enterSystem with zeosTicks := Core.wrap (kernel.core.enterSystem.zeosTicks + 1) }
  have tick : SameButStats ticked.updateSchedDataRr (kernel.core.entered .clock) := by
    have left : (kernel.core.entered .clock).leftTicks =
        toUnsigned (kernel.core.leftTicks - 1) := by
      rw [Core.entered, if_pos rfl]
      rfl
    refine ⟨?_, ?_, ?_, ?_, ?_, ?_, left.symm, ?_, ?_, fun t => ?_⟩
    all_goals simp [ticked, Core.updateSchedDataRr, inUserMode]
  have counted : Disciplined ⟨ticked.updateSchedDataRr, kernel.queues⟩ :=
    (disciplined.entered .clock).sameButStats tick
  rcases @schedule_outcome ⟨ticked, kernel.queues⟩ counted with
    ⟨core, after, same, scheduled, outcome⟩
  unfold clkRoutine
  dsimp only
  rw [show Kernel.schedule (kernel.mapCore fun core => { core.enterSystem with
    zeosTicks := Core.wrap (core.enterSystem.zeosTicks + 1) }) [.clkRoutine] = _ from scheduled]
  exact .ok ⟨core, same.trans tick, .clock outcome⟩

theorem resume_effect (disciplined : Disciplined kernel) :
    Ensures Fault.Elsewhere (StepEffect kernel .resume) kernel.resume := by
  have entered : Disciplined ⟨{ kernel.core with inKernel := false }, kernel.queues⟩ :=
    disciplined.entered .resume
  refine (resumeFrames_outcome entered _ rfl).mono fun after resumed => ?_
  rcases resumed with ⟨core, same, outcome⟩
  exact ⟨core, same, .resume outcome⟩

theorem Event.Enabled.inUserMode {event : Event} {core : Core} (enabled : event.Enabled core)
    (notResume : event ≠ .resume) : core.inKernel = false := by
  have mode := enabled.2
  rw [if_neg notResume] at mode
  exact mode.1

theorem Event.Enabled.notIdle {event : Event} {core : Core} (enabled : event.Enabled core)
    (notResume : event ≠ .resume) (notInterrupt : event.IsInterrupt = false) :
    core.current ≠ core.idleTask := by
  have mode := enabled.2
  rw [if_neg notResume, notInterrupt] at mode
  exact mode.2.resolve_left Bool.false_ne_true

theorem execute_effect (disciplined : Disciplined kernel) {event : Event}
    (enabled : event.Enabled kernel.core) :
    Ensures Fault.Elsewhere (StepEffect kernel event) (kernel.execute event) := by
  have entered : Disciplined ⟨kernel.core.enterSystem, kernel.queues⟩ :=
    disciplined.sameButStats (.charge _ _)
  have userMode := enabled.inUserMode
  cases event with
  | resume => exact resume_effect disciplined
  | clock => exact clkRoutine_effect disciplined (userMode Event.noConfusion)
  | keyboard llegit => exact keyboardRoutine_effect disciplined (userMode Event.noConfusion) llegit
  | getpid =>
      exact systemCall_effect (userMode Event.noConfusion) Event.noConfusion (.ok (.getpid _))
  | gettime =>
      exact systemCall_effect (userMode Event.noConfusion) Event.noConfusion (.ok (.gettime _))
  | fork =>
      refine systemCall_effect (userMode Event.noConfusion) Event.noConfusion ?_
      exact returning_effect (sysFork_outcome entered) fun _ outcome => .fork outcome
  | clone function stack =>
      refine systemCall_effect (userMode Event.noConfusion) Event.noConfusion ?_
      exact returning_effect (sysClone_outcome entered function stack) fun _ outcome =>
        .clone function stack outcome
  | exit =>
      show Ensures _ _ (kernel.systemCall fun k => do
        let k ← k.sysExit
        return (k, none))
      refine systemCall_effect (userMode Event.noConfusion) Event.noConfusion ?_
      exact (sysExit_outcome entered).bind fun _ outcome => .ok (.exit outcome)
  | sbrk amount =>
      refine systemCall_effect (userMode Event.noConfusion) Event.noConfusion ?_
      exact returning_effect (sysSbrk_outcome _ amount) fun _ outcome => .sbrk amount outcome
  | semInit nSem value =>
      refine systemCall_effect (userMode Event.noConfusion) Event.noConfusion ?_
      exact returning_effect (.of_exists (sysSemInit_outcome entered.toOrderly nSem value))
        fun _ outcome => .semInit nSem value outcome
  | semWait nSem =>
      show Ensures _ _ (kernel.systemCall fun k => k.sysSemWait nSem)
      refine systemCall_effect (userMode Event.noConfusion) Event.noConfusion ?_
      exact .mono (.of_exists (sysSemWait_outcome entered nSem)) fun _ outcome =>
        .semWait nSem outcome
  | semSignal nSem =>
      refine systemCall_effect (userMode Event.noConfusion) Event.noConfusion ?_
      have signals := (sysSemSignal_outcome entered.toOrderly nSem).allow fun _ failed =>
        show Fault.Elsewhere _ from .inr failed.1
      exact returning_effect signals fun _ outcome => .semSignal nSem outcome
  | semDestroy nSem =>
      refine systemCall_effect (userMode Event.noConfusion) Event.noConfusion ?_
      exact returning_effect (.of_exists (sysSemDestroy_outcome entered.toOrderly nSem))
        fun _ outcome => .semDestroy nSem outcome
  | read fd buffer count i =>
      show Ensures _ _ (kernel.systemCall fun k => k.sysRead fd buffer count i)
      refine systemCall_effect (userMode Event.noConfusion) Event.noConfusion ?_
      exact (sysRead_outcome entered fd buffer count i).mono fun _ outcome =>
        .read fd buffer count i outcome
  | write fd buffer size =>
      refine systemCall_effect (userMode Event.noConfusion) Event.noConfusion ?_
      have writes := sysWrite_failsElsewhere ⟨kernel.core.enterSystem, kernel.queues⟩ fd buffer size
      let Unchanged := fun outcome : SequenceKernel × Int =>
        outcome.1 = ⟨kernel.core.enterSystem, kernel.queues⟩
      have unchanged := Ensures.bind writes fun written _ =>
        @Ensures.ok Fault _ Fault.Elsewhere Unchanged (_, written.2) rfl
      exact returning_effect unchanged fun outcome same => by
        rw [same]
        exact .write fd buffer size outcome.2
  | getStats pid st =>
      refine systemCall_effect (userMode Event.noConfusion) Event.noConfusion ?_
      exact returning_effect (sysGetStats_outcome _ pid st) fun _ told => .getStats pid st told
  | niSyscall =>
      exact systemCall_effect (userMode Event.noConfusion) Event.noConfusion (.ok .niSyscall)

/-! ## The discipline is kept -/

theorem Disciplined.running (disciplined : Disciplined kernel) :
    (kernel.core.task kernel.core.current).state = .run :=
  disciplined.placed.outside disciplined.currentUnlinked

theorem Disciplined.leaveKernel (disciplined : Disciplined kernel) :
    Disciplined (kernel.mapCore Core.leaveKernel) :=
  disciplined.congr 0 ⟨fun t _ => by simp, by simp, by simp, by simp⟩ (by simp) (by simp)

theorem finishCall_eax (kernel : SequenceKernel) (result : Int) :
    ((finishCall (kernel, some result)).core.task kernel.core.current).context.eax = result := by
  simp [finishCall, mapCore]

theorem finishCall_mm (outcome : SequenceKernel × Option Int) :
    (finishCall outcome).core.mm = outcome.1.core.mm := by
  rcases outcome with ⟨kernel, result⟩
  cases result <;> simp [finishCall, mapCore]

theorem Disciplined.finishCall (disciplined : Disciplined kernel) (result : Option Int) :
    Disciplined (Kernel.finishCall (kernel, result)) := by
  cases result with
  | none => exact disciplined
  | some value =>
      exact disciplined.congr 0 ⟨fun t _ => by simp, by simp, by simp, by simp⟩ (by simp)
        (by simp)

theorem Disciplined.leaveUnlessSwitched (disciplined : Disciplined kernel) :
    Disciplined kernel.leaveUnlessSwitched := by
  unfold Kernel.leaveUnlessSwitched
  split
  · exact disciplined
  · exact disciplined.leaveKernel

theorem Orderly.wake (orderly : Orderly kernel) (t : TaskId) : Orderly (kernel.wake t) :=
  orderly.toTail (agreesBut_setState kernel t .ready)
    ⟨by simp [stateWithin], by simp, fun sem same => by cases same⟩

section Outcomes

variable {outcome : SequenceKernel × Int} {switching : SequenceKernel × Option Int}
  {after : SequenceKernel}

theorem WaitOutcome.disciplined (disciplined : Disciplined kernel) {nSem : Int}
    (notIdle : kernel.core.current ≠ kernel.core.idleTask)
    (waited : WaitOutcome kernel nSem switching) : Disciplined switching.1 := by
  cases waited with
  | refused unusable => exact disciplined
  | passes sem index owned positive =>
      exact disciplined.congr 0 ⟨fun t _ => by simp, by simp, by simp, by simp⟩ (by simp)
        (by simp)
  | blocks sem index owned exhausted =>
      refine parkTail_disciplined disciplined (fun _ => notIdle) (fun other same => ?_)
        fun same => absurd same notIdle
      cases same
      exact owned

theorem InitOutcome.disciplined (disciplined : Disciplined kernel) {nSem : Int} {value : Nat}
    (initialised : InitOutcome kernel nSem value outcome) : Disciplined outcome.1 := by
  cases initialised with
  | refused index => exact disciplined
  | busy sem index owned => exact disciplined
  | initialised sem index unowned =>
      refine disciplined.congr 0 ⟨fun t _ => by simp, fun other => ?_, by simp, by simp⟩
        (by simp) (by simp)
      by_cases same : other = sem
      · subst same
        exact fun _ => unowned
      · simp [same]

theorem SignalOutcome.disciplined (disciplined : Disciplined kernel) {nSem : Int}
    (signalled : SignalOutcome kernel nSem outcome) : Disciplined outcome.1 := by
  cases signalled with
  | refused unusable => exact disciplined
  | counts sem index owned empty =>
      exact disciplined.congr 0 ⟨fun t _ => by simp, by simp, by simp, by simp⟩ (by simp)
        (by simp)
  | wakes sem index owned first rest waiting =>
      have member : first ∈ kernel.queues.elements (.blocked sem) := by simp [waiting]
      exact ⟨disciplined.toOrderly.wake first, disciplined.placed.not_linked_toTail
        (child_ne_current disciplined member).symm disciplined.currentUnlinked⟩

theorem DestroyOutcome.disciplined (disciplined : Disciplined kernel) {nSem : Int}
    (destroyed : DestroyOutcome kernel nSem outcome) : Disciplined outcome.1 := by
  cases destroyed with
  | refused unusable => exact disciplined
  | notOwner sem index owned other => exact disciplined
  | destroyed sem index owned owner after woken orderly semArray =>
      exact ⟨orderly, woken.current_unlinked disciplined⟩

theorem ExitOutcome.disciplined (disciplined : Disciplined kernel)
    (notIdle : kernel.core.current ≠ kernel.core.idleTask)
    (exited : ExitOutcome kernel after) : Disciplined after := by
  cases exited with
  | exited released destroyed mm freed =>
      refine retire_disciplined destroyed.orderly ?_ ?_ mm
      · exact destroyed.woken.current_unlinked disciplined
      · rw [destroyed.woken.rest]
        exact notIdle

theorem child_ne_idle (disciplined : Disciplined kernel) {child : TaskId}
    (free : child ∈ kernel.queues.elements .freequeue) : child ≠ kernel.core.idleTask := by
  intro same
  subst same
  exact disciplined.idleAllocated free

theorem ForkOutcome.disciplined (disciplined : Disciplined kernel)
    (forked : ForkOutcome kernel outcome) : Disciplined outcome.1 := by
  cases forked with
  | full empty => exact disciplined
  | noMemory child rest free mm outOfFrames =>
      have member : child ∈ kernel.queues.elements .freequeue := by simp [free]
      have notIdle := (child_ne_idle disciplined member).symm
      refine ⟨disciplined.toOrderly.remove ⟨fun t different => ?_, ?_, ?_, ?_⟩ ?_, ?_⟩
      · simp [different]
      · simp
      · simp
      · simp [notIdle]
      · simp [disciplined.running]
      · intro linked
        rcases linked with ⟨queue, inside⟩
        have inside : kernel.core.current ∈ (kernel.queues.remove child).elements queue := by
          simpa [Kernel.forkFailed] using inside
        exact disciplined.currentUnlinked ⟨queue, (disciplined.placed.mem_remove.mp inside).2⟩
  | forked child rest free mm copied =>
      have member : child ∈ kernel.queues.elements .freequeue := by simp [free]
      have notIdle := (child_ne_idle disciplined member).symm
      have notCurrent := (child_ne_current disciplined member).symm
      refine ⟨disciplined.toOrderly.toTail ⟨fun t different => ?_, ?_, ?_, ?_⟩ ⟨?_, ?_, ?_⟩, ?_⟩
      · simp [different]
      · simp
      · simp
      · simp [notIdle]
      · simp [stateWithin]
      · simp
      · intro sem same
        cases same
      · have unlinked : ¬(kernel.queues.toTail child .readyqueue).Linked kernel.core.current :=
          disciplined.placed.not_linked_toTail notCurrent disciplined.currentUnlinked
        simpa [Kernel.forked] using unlinked

theorem CloneOutcome.disciplined (disciplined : Disciplined kernel) {function stack : Nat}
    (cloned : CloneOutcome kernel function stack outcome) : Disciplined outcome.1 := by
  cases cloned with
  | refused error negative => exact disciplined
  | cloned child rest free =>
      have member : child ∈ kernel.queues.elements .freequeue := by simp [free]
      have notIdle := (child_ne_idle disciplined member).symm
      have notCurrent := (child_ne_current disciplined member).symm
      refine ⟨disciplined.toOrderly.toTail ⟨fun t different => ?_, ?_, ?_, ?_⟩ ⟨?_, ?_, ?_⟩, ?_⟩
      · simp [Core.cloneTo, different]
      · simp [Core.cloneTo]
      · simp [Core.cloneTo]
      · simp [Core.cloneTo, notIdle]
      · simp [Core.cloneTo, stateWithin]
      · simp
      · intro sem same
        cases same
      · have unlinked : ¬(kernel.queues.toTail child .readyqueue).Linked kernel.core.current :=
          disciplined.placed.not_linked_toTail notCurrent disciplined.currentUnlinked
        simpa [Kernel.cloned, Core.cloneTo] using unlinked

theorem SbrkOutcome.disciplined (disciplined : Disciplined kernel) {amount : Int}
    (moved : SbrkOutcome kernel amount outcome) : Disciplined outcome.1 := by
  cases moved <;>
    exact disciplined.congr 0 ⟨fun _ _ => rfl, fun _ => id, rfl, rfl⟩ rfl rfl

theorem ReadOutcome.disciplined (disciplined : Disciplined kernel)
    (notIdle : kernel.core.current ≠ kernel.core.idleTask)
    (read : ReadOutcome kernel switching) : Disciplined switching.1 := by
  cases read with
  | finished ram circbuff readers result => exact disciplined.withInput ram circbuff readers
  | waits ram circbuff readers buffer count i =>
      exact parkFront_disciplined (disciplined.withInput ram circbuff readers) (fun _ => notIdle)
        (fun sem same => by cases same) fun same => absurd same notIdle
  | queued ram circbuff readers =>
      exact parkTail_disciplined (disciplined.withInput ram circbuff readers) (fun _ => notIdle)
        (fun sem same => by cases same) fun same => absurd same notIdle

theorem ReadCall.disciplined (disciplined : Disciplined kernel)
    (notIdle : kernel.core.current ≠ kernel.core.idleTask) {fd : Int} {buffer : Nat}
    {count i : Int} (call : ReadCall kernel fd buffer count i switching) :
    Disciplined switching.1 :=
  call.coarse.disciplined disciplined notIdle

theorem StatsOutcome.disciplined (disciplined : Disciplined kernel) {pid : Int} {st : Nat}
    (told : StatsOutcome kernel pid st outcome) : Disciplined outcome.1 := by
  cases told with
  | refused error positive => exact disciplined
  | stored t found notNegative accepted mm stored =>
      have remaining := disciplined.sameButStats (.setRemaining kernel.core t)
      exact remaining.congr 0 ⟨fun _ _ => rfl, fun _ => id, rfl, rfl⟩ rfl rfl

theorem KeyOutcome.disciplined (disciplined : Disciplined kernel) {result : UInt8}
    (key : KeyOutcome kernel result after) : Disciplined after := by
  cases key with
  | buffered reader rest waiting incomplete => exact disciplined.withInput _ _ _
  | wakes reader rest waiting complete =>
      have member : reader ∈ kernel.queues.elements .keyboardqueue := by simp [waiting]
      refine parkTail_disciplined (reader_disciplined disciplined member _ _)
        (fun different => absurd rfl different) (fun sem same => by cases same) fun _ => ?_
      simp [Frame.OfInterrupt]

theorem ClockOutcome.disciplined (disciplined : Disciplined kernel)
    (clock : ClockOutcome kernel after) : Disciplined after := by
  cases clock with
  | continues left => exact disciplined
  | idles expired idle =>
      exact dispatch_disciplined disciplined.toOrderly fun _ => by simp [Frame.OfInterrupt]
  | preempts expired notIdle =>
      exact parkTail_disciplined disciplined (fun different => absurd rfl different)
        (fun sem same => by cases same) fun same => absurd same notIdle

theorem topFrame_mem {frames : List Frame} {frame : Frame} (top : topFrame frames = some frame) :
    frame ∈ frames := by
  induction frames with
  | nil => cases top
  | cons first rest induction =>
      cases first with
      | schedNextRr => exact List.mem_cons_of_mem _ (induction top)
      | _ =>
          cases top
          exact List.mem_cons_self

theorem ResumeOutcome.disciplined (disciplined : Disciplined kernel)
    (resumed : ResumeOutcome kernel after) : Disciplined after := by
  cases resumed with
  | idles top => exact disciplined
  | interrupt frame top kind => exact disciplined.leaveKernel
  | returns frame top kind => exact disciplined.finishCall _
  | waited top =>
      refine Disciplined.finishCall ?_ _
      exact disciplined.congr 0 ⟨fun t _ => by simp, by simp, by simp, by simp⟩ (by simp)
        (by simp)
  | reads buffer count i top outcome loop =>
      have notIdle : kernel.core.current ≠ kernel.core.idleTask := by
        intro same
        have frames := topFrame_mem top
        rw [currentTask, same] at frames
        exact disciplined.idleStack _ frames
      exact (loop.coarse.disciplined disciplined notIdle).finishCall _

end Outcomes

theorem Effect.disciplined (disciplined : Disciplined kernel) {event : Event}
    {after : SequenceKernel} (effect : Effect kernel event after)
    (notIdle : event ≠ .resume → event.IsInterrupt = false →
      kernel.core.current ≠ kernel.core.idleTask) : Disciplined after := by
  cases effect with
  | resume outcome => exact outcome.disciplined disciplined
  | clock outcome => exact (outcome.disciplined disciplined).leaveUnlessSwitched
  | ignored llegit refused => exact disciplined.leaveKernel
  | keyboard llegit accepted outcome => exact (outcome.disciplined disciplined).leaveUnlessSwitched
  | getpid result => exact disciplined.finishCall _
  | gettime result => exact disciplined.finishCall _
  | fork outcome => exact (outcome.disciplined disciplined).finishCall _
  | clone function stack outcome => exact (outcome.disciplined disciplined).finishCall _
  | exit outcome => exact outcome.disciplined disciplined (notIdle Event.noConfusion rfl)
  | sbrk amount outcome => exact (outcome.disciplined disciplined).finishCall _
  | semInit nSem value outcome => exact (outcome.disciplined disciplined).finishCall _
  | semWait nSem outcome =>
      exact (outcome.disciplined disciplined (notIdle Event.noConfusion rfl)).finishCall _
  | semSignal nSem outcome => exact (outcome.disciplined disciplined).finishCall _
  | semDestroy nSem outcome => exact (outcome.disciplined disciplined).finishCall _
  | read fd buffer count i outcome =>
      exact (outcome.disciplined disciplined (notIdle Event.noConfusion rfl)).finishCall _
  | write fd buffer size result => exact disciplined.finishCall _
  | getStats pid st told => exact (told.disciplined disciplined).finishCall _
  | niSyscall => exact disciplined.finishCall _

theorem execute_disciplined (disciplined : Disciplined kernel) {event : Event}
    (enabled : event.Enabled kernel.core) {after : SequenceKernel}
    (executed : kernel.execute event = .ok after) : Disciplined after := by
  rcases (execute_effect disciplined enabled).of_ok executed with ⟨core, same, effect⟩
  have entered := (disciplined.entered event).sameButStats same
  refine effect.disciplined entered fun notResume notInterrupt => ?_
  simpa [same.current, same.idleTask] using enabled.notIdle notResume notInterrupt

/-- How the variables at the entry differ from those before the step: in
statistics, in the mode and, for a tick, in the ticks that are left. -/
structure Entry (event : Event) (before core : Core) : Prop where
  mm : core.mm = before.mm
  idleTask : core.idleTask = before.idleTask
  current : core.current = before.current
  inKernel : core.inKernel = false
  semArray : core.semArray = before.semArray
  globalPID : core.globalPID = before.globalPID
  leftTicks : core.leftTicks = (before.entered event).leftTicks
  circbuff : core.circbuff = before.circbuff
  keyboardReadersCount : core.keyboardReadersCount = before.keyboardReadersCount
  task : ∀ t, core.task t = { before.task t with pStats := (core.task t).pStats }

theorem SameButStats.entry {core before : Core} {event : Event}
    (same : SameButStats core (before.entered event)) : Entry event before core where
  mm := by simp [same.mm]
  idleTask := by simp [same.idleTask]
  current := by simp [same.current]
  inKernel := by simp [same.inKernel]
  semArray := by simp [same.semArray]
  globalPID := by simp [same.globalPID]
  leftTicks := same.leftTicks
  circbuff := by simp [same.circbuff]
  keyboardReadersCount := by simp [same.keyboardReadersCount]
  task t := by simpa using same.task t

theorem step_effect {machine : Machine} {before after : SequenceKernel} {event : Event}
    (disciplined : Disciplined before) (step : (checkedZeos machine).step before event after) :
    ∃ core, Entry event before.core core ∧ Disciplined ⟨core, before.queues⟩ ∧
      (event ≠ .resume → event.IsInterrupt = false → core.current ≠ core.idleTask) ∧
      Effect ⟨core, before.queues⟩ event after := by
  rcases (execute_effect disciplined step.1).of_ok step.2 with ⟨core, same, effect⟩
  have entry := same.entry
  refine ⟨core, entry, (disciplined.entered event).sameButStats same, ?_, effect⟩
  rw [entry.current, entry.idleTask]
  exact step.1.notIdle

/-! ## Runs of the two kernels -/

theorem boot_disciplined (machine : Machine) :
    Disciplined ⟨machine.bootCore 0 1, bootSequences⟩ := by
  rcases bootCore_frame machine with ⟨current, idle, -, semArray, -⟩
  have onlyFree : ∀ {queue t}, t ∈ bootSequences.elements queue → queue = .freequeue ∧ 2 ≤ t := by
    decide
  refine ⟨⟨⟨bootLinks_represents.nodup, bootLinks_represents.apart, ?_, ?_⟩, ?_, ?_, ?_, ?_⟩, ?_⟩
  · intro queue t member
    rw [(onlyFree member).1]
    exact bootCore_state machine t
  · intro t _
    exact bootCore_state machine t
  · intro sem _
    rfl
  · rw [idle]
    show (0 : TaskId) ∉ bootSequences.elements .freequeue
    decide
  · rw [bootCore_state]
    exact ProcessState.noConfusion
  · rw [bootCore_kernelEsp, idle]
    simp [Frame.OfInterrupt]
  · rw [current]
    show ¬bootSequences.Linked 1
    decide

/-- The abstraction: read the sequences off the pointers. -/
def Kernel.toSequences (kernel : PointerKernel) : SequenceKernel :=
  ⟨kernel.core, ⟨fun queue => kernel.queues.walk nrTasks (.head queue)⟩⟩

abbrev Recorded := Transition SequenceKernel Event

def record (history : List (Transition PointerKernel Event)) : List Recorded :=
  history.map (Transition.map Kernel.toSequences)

theorem Kernel.Represents.toSequences_eq {pointer : PointerKernel} {sequence : SequenceKernel}
    (represents : pointer.Represents sequence) : pointer.toSequences = sequence := by
  cases represents with
  | intro core lists =>
      rename_i links sequences
      have same : (fun queue => links.walk nrTasks (.head queue)) = sequences.elements := by
        funext queue
        have short : (sequences.elements queue).length ≤ nrTasks := by
          simpa using (lists.nodup queue).length_le_card
        exact lists.walk short
      rw [toSequences, same]

/-- The pointers form rings, and the sequences these hold satisfy the
discipline. -/
structure Mirrored (pointer : PointerKernel) : Prop where
  represents : pointer.Represents pointer.toSequences
  disciplined : Disciplined pointer.toSequences

theorem mirrored_boot (machine : Machine) : Mirrored ⟨machine.bootCore 0 1, bootLinks⟩ ∧
    Kernel.toSequences ⟨machine.bootCore 0 1, bootLinks⟩ =
      ⟨machine.bootCore 0 1, bootSequences⟩ := by
  have represents : Kernel.Represents ⟨machine.bootCore 0 1, bootLinks⟩
      ⟨machine.bootCore 0 1, bootSequences⟩ := .intro _ bootLinks_represents
  have sequences := represents.toSequences_eq
  refine ⟨⟨?_, ?_⟩, sequences⟩
  · rw [sequences]
    exact represents
  · rw [sequences]
    exact boot_disciplined machine

/-- The two kernels fail together, and succeed together with corresponding
results. -/
theorem Mirrored.execute {pointer : PointerKernel} (mirrored : Mirrored pointer) {event : Event}
    (enabled : event.Enabled pointer.core) :
    (∀ after, pointer.execute event = .ok after →
      Mirrored after ∧ pointer.toSequences.execute event = .ok after.toSequences) ∧
      ∀ failure, pointer.execute event = .error failure ↔
        pointer.toSequences.execute event = .error failure := by
  have effect := execute_effect mirrored.disciplined enabled
  have refines := mirrored.represents.execute event
  have agree := refines.of_defined fun failure failed misuse => by
    have elsewhere := effect.of_error failed
    rw [misuse] at elsewhere
    rcases elsewhere with memory | overflow
    · exact memory
    · cases overflow
  refine ⟨fun after executed => ?_, agree.2⟩
  rcases agree.1 after executed with ⟨result, executedResult, represents⟩
  have same := represents.toSequences_eq
  subst same
  exact ⟨⟨represents, execute_disciplined mirrored.disciplined enabled executedResult⟩,
    executedResult⟩

theorem Mirrored.step {machine : Machine} {before after : PointerKernel} {event : Event}
    (mirrored : Mirrored before) (step : (zeos machine).step before event after) :
    Mirrored after ∧
      (checkedZeos machine).step before.toSequences event after.toSequences := by
  rcases (mirrored.execute step.1).1 after step.2 with ⟨later, executed⟩
  exact ⟨later, step.1, executed⟩

theorem Mirrored.run {machine : Machine} {history : List (Transition PointerKernel Event)}
    {first last : PointerKernel} (mirrored : Mirrored first)
    (run : (zeos machine).Run first history last) :
    Mirrored last ∧
      (checkedZeos machine).Run first.toSequences (record history) last.toSequences :=
  run.map mirrored fun _ _ _ mirrored step => mirrored.step step

theorem run_toSequences {machine : Machine} {history : List (Transition PointerKernel Event)}
    {last : PointerKernel} (reaches : (zeos machine).Reaches history last) :
    Mirrored last ∧ (checkedZeos machine).Reaches
      (history.map (Transition.map Kernel.toSequences)) last.toSequences := by
  rcases reaches with ⟨first, start, run⟩
  have boot : first = ⟨machine.bootCore 0 1, bootLinks⟩ :=
    Except.ok.inj (start.symm.trans (boot_pointers machine))
  subst boot
  rcases mirrored_boot machine with ⟨mirrored, sequences⟩
  have mapped := mirrored.run run
  refine ⟨mapped.1, _, ?_, mapped.2⟩
  rw [sequences]
  exact boot_sequences machine

theorem Mirrored.executes {pointer : PointerKernel} (mirrored : Mirrored pointer) {event : Event}
    (enabled : event.Enabled pointer.core) {after : SequenceKernel}
    (executed : pointer.toSequences.execute event = .ok after) :
    ∃ next, pointer.execute event = .ok next ∧ next.toSequences = after := by
  cases outcome : pointer.execute event with
  | error failure =>
      rw [((mirrored.execute enabled).2 failure).mp outcome] at executed
      cases executed
  | ok next =>
      have same := ((mirrored.execute enabled).1 next outcome).2
      exact ⟨next, rfl, Except.ok.inj (same.symm.trans executed)⟩

theorem Mirrored.runs {machine : Machine} {history : List Recorded} {first : PointerKernel}
    {last : SequenceKernel} (mirrored : Mirrored first)
    (run : (checkedZeos machine).Run first.toSequences history last) :
    ∃ pointers kernel, (zeos machine).Run first pointers kernel ∧ record pointers = history ∧
      kernel.toSequences = last := by
  have lifts : ∀ (before : PointerKernel) event after, Mirrored before →
      (checkedZeos machine).step before.toSequences event after →
      ∃ next : PointerKernel, next.toSequences = after ∧ Mirrored next ∧
        (zeos machine).step before event next := by
    intro before event after mirrored step
    rcases mirrored.executes step.1 step.2 with ⟨next, executed, same⟩
    have pointerStep : (zeos machine).step before event next := ⟨step.1, executed⟩
    exact ⟨next, same, (mirrored.step pointerStep).1, pointerStep⟩
  rcases run.lift rfl mirrored lifts with ⟨pointers, kernel, pointerRun, -, recorded, same⟩
  exact ⟨pointers, kernel, pointerRun, recorded, same⟩

theorem reaches_of_sequences {machine : Machine} {history : List Recorded}
    {last : SequenceKernel} (reaches : (checkedZeos machine).Reaches history last) :
    ∃ pointers kernel, (zeos machine).Reaches pointers kernel ∧ record pointers = history ∧
      kernel.toSequences = last := by
  rcases reaches with ⟨first, start, run⟩
  have boot := Except.ok.inj (start.symm.trans (boot_sequences machine))
  subst boot
  rcases mirrored_boot machine with ⟨mirrored, sequences⟩
  rw [← sequences] at run
  rcases mirrored.runs run with ⟨pointers, kernel, run, recorded, same⟩
  exact ⟨pointers, kernel, ⟨_, boot_pointers machine, run⟩, recorded, same⟩

theorem reachable_mirrored {machine : Machine} {kernel : PointerKernel}
    (reachable : (zeos machine).Reachable kernel) : Mirrored kernel := by
  rcases reachable with ⟨history, reaches⟩
  exact (run_toSequences reaches).1

theorem reachable_disciplined {machine : Machine} {kernel : SequenceKernel}
    (reachable : (checkedZeos machine).Reachable kernel) : Disciplined kernel := by
  refine reachable.invariant (fun first start => ?_) fun before event after step disciplined =>
    execute_disciplined disciplined step.1 step.2
  have boot := Except.ok.inj (start.symm.trans (boot_sequences machine))
  subst boot
  exact boot_disciplined machine

theorem reaches_of_replay {machine : Machine} {events : List Event}
    {check : List (Transition PointerKernel Event) × PointerKernel → Bool}
    (computed : (replay events ⟨machine.bootCore 0 1, bootLinks⟩).any check = true) :
    ∃ history last, (zeos machine).Reaches history last ∧ check (history, last) = true := by
  cases replayed : replay events ⟨machine.bootCore 0 1, bootLinks⟩ with
  | none =>
      rw [replayed] at computed
      cases computed
  | some run =>
      rcases run with ⟨history, last⟩
      rw [replayed, Option.any_some] at computed
      exact ⟨history, last, ⟨_, boot_pointers machine, replay_run replayed⟩, computed⟩

/-- Whether the transition at `position`, with the transitions after it, passes a test. -/
def passesAt {τ : Type} (position : Nat) (test : τ → List τ → Bool) (history : List τ) : Bool :=
  history[position]?.any fun transition => test transition (history.drop (position + 1))

theorem split_of_passesAt {τ : Type} {position : Nat} {test : τ → List τ → Bool}
    {history : List τ} (passes : passesAt position test history = true) :
    ∃ transition rest, history = history.take position ++ transition :: rest ∧
      test transition rest = true := by
  rcases (Option.any_eq_true _ _).mp passes with ⟨transition, found, tested⟩
  rcases List.getElem?_eq_some_iff.mp found with ⟨inRange, here⟩
  refine ⟨transition, history.drop (position + 1), ?_, tested⟩
  rw [← here, List.getElem_cons_drop, List.take_append_drop]

/-! ## From a call to its return -/

def Kernel.UserMode (kernel : SequenceKernel) (t : TaskId) : Prop :=
  kernel.core.current = t ∧ kernel.core.inKernel = false

instance (kernel : SequenceKernel) (t : TaskId) : Decidable (kernel.UserMode t) :=
  inferInstanceAs (Decidable (_ ∧ _))

/-- `t` gets back to user mode at the end of the steps, and not before, with
`result` in its register. -/
inductive Returns (t : TaskId) (result : Int) : List Recorded → Prop
  | returns {transition : Recorded} (here : transition.after.UserMode t)
      (eax : (transition.after.core.task t).context.eax = result) : Returns t result [transition]
  | pends {transition : Recorded} {rest : List Recorded} (away : ¬transition.after.UserMode t)
      (later : Returns t result rest) : Returns t result (transition :: rest)

theorem returns_cons {t : TaskId} {result : Int} {transition : Recorded} {rest : List Recorded} :
    Returns t result (transition :: rest) ↔
      if transition.after.UserMode t then
        rest = [] ∧ (transition.after.core.task t).context.eax = result
      else Returns t result rest := by
  constructor
  · intro returns
    cases returns with
    | returns here eax =>
        rw [if_pos here]
        exact ⟨rfl, eax⟩
    | pends away later => rwa [if_neg away]
  · intro returns
    split at returns
    · rename_i here
      rcases returns with ⟨done, eax⟩
      subst done
      exact .returns here eax
    · rename_i away
      exact .pends away returns

instance decidableReturns (t : TaskId) (result : Int) :
    (history : List Recorded) → Decidable (Returns t result history)
  | [] => isFalse fun returns => by cases returns
  | _ :: rest =>
      have := decidableReturns t result rest
      decidable_of_iff _ returns_cons.symm

/-! ## Queue discipline -/

/-- The lists of a kernel, and the states of its tasks, as the kernel's
documentation of its queues has them. -/
structure WellQueued (kernel : PointerKernel) (elements : Queue → List TaskId) : Prop where
  /-- The lists are rings, a task is in one of them at most, and at most once. -/
  rings : kernel.queues.Represents elements
  ready : ∀ t, (kernel.core.task t).state = .ready ↔ t ∈ elements .readyqueue
  blocked : ∀ t, (kernel.core.task t).state = .blocked ↔
    t ∈ elements .keyboardqueue ∨ ∃ sem, t ∈ elements (.blocked sem)
  run : ∀ t, (kernel.core.task t).state = .run ↔
    t ∉ elements .readyqueue ∧ t ∉ elements .keyboardqueue ∧ ∀ sem, t ∉ elements (.blocked sem)

theorem Mirrored.wellQueued {kernel : PointerKernel} (mirrored : Mirrored kernel) :
    WellQueued kernel kernel.toSequences.queues.elements := by
  have placed := mirrored.disciplined.placed
  have ready : ∀ t, (kernel.core.task t).state = .ready ↔
      t ∈ kernel.toSequences.queues.elements .readyqueue := fun _ => placed.ready_iff
  have blocked : ∀ t, (kernel.core.task t).state = .blocked ↔
      t ∈ kernel.toSequences.queues.elements .keyboardqueue ∨
        ∃ sem, t ∈ kernel.toSequences.queues.elements (.blocked sem) := fun _ => placed.blocked_iff
  refine ⟨mirrored.represents.lists, ready, blocked, fun t => ?_⟩
  have notReady := not_congr (ready t)
  have notBlocked := not_congr (blocked t)
  rw [not_or, not_exists] at notBlocked
  rw [← notReady, ← notBlocked]
  cases (kernel.core.task t).state <;> simp

/-- In every reachable state the queues are in order, and no interrupt, system
call or resumption unlinks a task that is in no list, links one that already is,
or follows a pointer that leads nowhere. -/
theorem queueDiscipline {machine : Machine} {kernel : PointerKernel}
    (reachable : (zeos machine).Reachable kernel) :
    ∃ elements, WellQueued kernel elements ∧
      ∀ event, event.Enabled kernel.core → ∀ reason,
        kernel.execute event ≠ .error (.list reason) ∧
        Kernel.execute event (⟨kernel.core, ⟨elements⟩⟩ : SequenceKernel) ≠
          .error (.list reason) := by
  have mirrored := reachable_mirrored reachable
  refine ⟨_, mirrored.wellQueued, fun event enabled reason => ?_⟩
  have proper : kernel.toSequences.execute event ≠ .error (.list reason) := by
    intro failed
    rcases (execute_effect mirrored.disciplined enabled).of_error failed with memory | overflow
    · exact memory
    · cases overflow
  exact ⟨fun failed => proper (((mirrored.execute enabled).2 _).mp failed), proper⟩

theorem queueDiscipline_boot :
    ∃ elements, WellQueued ⟨Machine.sample.bootCore 0 1, bootLinks⟩ elements ∧
      ∀ event, event.Enabled (Machine.sample.bootCore 0 1) → ∀ reason,
        Kernel.execute event (⟨Machine.sample.bootCore 0 1, bootLinks⟩ : PointerKernel) ≠
          .error (.list reason) ∧
        Kernel.execute event (⟨Machine.sample.bootCore 0 1, ⟨elements⟩⟩ : SequenceKernel) ≠
          .error (.list reason) :=
  queueDiscipline ⟨[], _, boot_pointers Machine.sample, .nil⟩

end Zeos
