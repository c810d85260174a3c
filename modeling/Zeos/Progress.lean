import Zeos.Keyboard
import Zeos.UserAccess

/-! # Back in user mode

The kernel never keeps the processor. A task that was switched to is back in user
mode when it is resumed, except for a reader that sees no character in the ring, and
then the task behind it is.
-/

namespace Zeos

open Foundation Kernel

def Mm.Refuses (mm : Mm) (pt : DirSlot) (address : Nat) (failure : Fault) : Prop :=
  failure = .pageFault address ∧ ¬mm.Mapped pt (address / pageSize) ∨
    failure = .kernelPage (address / pageSize) ∧ address / pageSize < numPagKernel

namespace Kernel

variable {σ : Type}

/-- The loop of `sys_read_keyboard` at `i` comes to a character of the ring for an address
whose page is absent, or one of the kernel's. -/
def Strays (kernel : Kernel σ) (buffer : Nat) (count i : Int) (failure : Fault) : Prop :=
  ∃ position : Nat, position < kernel.core.circbuff.visible ∧ i + position < count ∧
    kernel.core.mm.Refuses kernel.currentTask.dirPagesBaseAddr
      (toUnsigned (buffer + (i + position))) failure

variable [ListOps σ Queue TaskId]

/-- How the task that has been switched to gets back to user mode. -/
inductive ComesBack (kernel : Kernel σ) : Prop
  | returns (after : Kernel σ) (executed : kernel.execute .resume = .ok after)
      (user : after.core.inKernel = false)
  | waits (buffer : Nat) (count i : Int) (waiting after : Kernel σ)
      (reads : topFrame kernel.currentTask.kernelEsp = some (.sysReadLoop buffer count i))
      (executed : kernel.execute .resume = .ok waiting)
      (inKernel : waiting.core.inKernel = true) (drained : waiting.core.circbuff.visible = 0)
      (switched : waiting.core.current ≠ kernel.core.current)
      (resumed : waiting.execute .resume = .ok after) (user : after.core.inKernel = false)
  | faults (buffer : Nat) (count i : Int) (failure : Fault)
      (reads : topFrame kernel.currentTask.kernelEsp = some (.sysReadLoop buffer count i))
      (strays : kernel.Strays buffer count i failure)
      (failed : kernel.execute .resume = .error failure)

theorem resumeFrames_user (frames : List Frame) (kernel : Kernel σ)
    (user : kernel.core.inKernel = false)
    (notReading : ∀ buffer count i, topFrame frames ≠ some (.sysReadLoop buffer count i)) :
    ∃ after, resumeFrames frames kernel = .ok after ∧ after.core.inKernel = false := by
  induction frames generalizing kernel with
  | nil => exact ⟨kernel, rfl, user⟩
  | cons frame frames induction =>
      cases frame with
      | schedNextRr => exact induction kernel.schedNextRrTail user notReading
      | sysReadLoop buffer count i => exact absurd rfl (notReading buffer count i)
      | retFromFork => exact ⟨_, rfl, rfl⟩
      | sysSemWait => exact ⟨_, rfl, rfl⟩
      | sysReadQueued => exact ⟨_, rfl, rfl⟩
      | sysExit => exact ⟨_, rfl, rfl⟩
      | keyboardRoutine => exact ⟨_, rfl, rfl⟩
      | clkRoutine => exact ⟨_, rfl, rfl⟩
      | cpuIdle => exact ⟨_, rfl, user⟩

theorem resume_user {kernel : Kernel σ} (notReading : ∀ buffer count i,
      topFrame kernel.currentTask.kernelEsp ≠ some (.sysReadLoop buffer count i)) :
    ∃ after, kernel.execute .resume = .ok after ∧ after.core.inKernel = false :=
  resumeFrames_user _ _ rfl notReading

end Kernel

section Readers

variable {kernel : SequenceKernel}

theorem Kernel.Strays.of_next {buffer : Nat} {count i : Int} {failure : Fault} {mm : Mm}
    (stored : kernel.core.mm.storeByte kernel.currentTask.dirPagesBaseAddr
      (toUnsigned (buffer + i)) kernel.core.circbuff.front = .ok mm)
    (sees : kernel.core.circbuff.visible ≠ 0)
    (strays : Kernel.Strays (⟨{ kernel.core with
      mm := mm, circbuff := kernel.core.circbuff.pop }, kernel.queues⟩ : SequenceKernel)
        buffer count (i + 1) failure) :
    kernel.Strays buffer count i failure := by
  rcases strays with ⟨position, inRing, wanted, refused⟩
  have popped := Circbuff.pop_visible sees
  rcases storeByte_eq_ok stored with ⟨ram, equal⟩
  have next : i + ((position + 1 : Nat) : Int) = i + 1 + position := by omega
  refine ⟨position + 1, ?_, by omega, ?_⟩
  · have inRing : position < kernel.core.circbuff.pop.visible := inRing
    omega
  · subst equal
    rw [next]
    exact refused

theorem storeByte_refused {mm : Mm} {pt : DirSlot} {address : Nat} {byte : UInt8}
    {failure : Fault} (failed : mm.storeByte pt address byte = .error failure) :
    mm.Refuses pt address failure := by
  unfold Mm.storeByte Mm.translate at failed
  split at failed
  · rw [ok_bind] at failed
    split at failed
    · rename_i ofKernel
      cases failed
      exact .inr ⟨rfl, ofKernel⟩
    · cases failed
  · rename_i absent
    cases failed
    exact .inl ⟨rfl, absent⟩

theorem readLoop_strays (disciplined : Disciplined kernel) (buffer : Nat) (count i : Int) :
    Ensures (kernel.Strays buffer count i) (fun _ => True) (readLoop buffer count i kernel) := by
  generalize measure : (count - i).toNat = rounds
  induction rounds using Nat.strongRecOn generalizing kernel i with
  | ind rounds induction =>
      rw [readLoop]
      by_cases more : i < count
      · rw [if_pos more]
        by_cases unseen : kernel.core.circbuff.visible = 0
        · have empty : kernel.core.circbuff.emptyWord ≠ 0 := fun zero =>
            Circbuff.emptyWord_eq_zero.mp zero unseen
          have parked := parkFront_eq disciplined (rfl : _ = stateWithin .keyboardqueue)
            [.sysReadLoop buffer count i] fun switched => .ok (switched, (none : Option Int))
          rw [if_pos empty]
          refine Eq.mpr (congrArg _ parked) ?_
          exact .ok trivial
        · have notEmpty := Circbuff.emptyWord_eq_zero.mpr unseen
          rw [if_neg (not_not.mpr notEmpty)]
          unfold popInto
          cases stored : kernel.core.mm.storeByte kernel.currentTask.dirPagesBaseAddr
              (toUnsigned (buffer + i)) kernel.core.circbuff.front with
          | error failure =>
              refine .error ⟨0, Nat.pos_of_ne_zero unseen, by omega, ?_⟩
              rw [Nat.cast_zero, Int.add_zero]
              exact storeByte_refused stored
          | ok mm =>
              rcases storeByte_eq_ok stored with ⟨ram, equal⟩
              have popped : Disciplined ⟨{ kernel.core with
                  mm := mm, circbuff := kernel.core.circbuff.pop }, kernel.queues⟩ := by
                rw [equal]
                exact disciplined.withInput ram _ kernel.core.keyboardReadersCount
              have later := induction (count - (i + 1)).toNat (by omega) popped (i + 1) rfl
              exact later.allow fun failure strays => strays.of_next stored unseen
      · rw [if_neg more]
        exact .ok trivial

theorem Kernel.Strays.of_sameButStats {core : Core} (same : SameButStats core kernel.core)
    {buffer : Nat} {count i : Int} {failure : Fault}
    (strays : Kernel.Strays (⟨core, kernel.queues⟩ : SequenceKernel) buffer count i failure) :
    kernel.Strays buffer count i failure := by
  rcases strays with ⟨position, inRing, wanted, refused⟩
  have inRing : position < core.circbuff.visible := inRing
  have refused : core.mm.Refuses (core.task core.current).dirPagesBaseAddr
      (toUnsigned (buffer + (i + position))) failure := refused
  rw [same.circbuff] at inRing
  rw [same.mm, same.task, same.current] at refused
  exact ⟨position, inRing, wanted, refused⟩

theorem resumeFrames_strays (disciplined : Disciplined kernel) (frames : List Frame) :
    FailsOnly (fun failure => ∃ buffer count i,
      topFrame frames = some (.sysReadLoop buffer count i) ∧ kernel.Strays buffer count i failure)
      (resumeFrames frames kernel) := by
  induction frames generalizing kernel with
  | nil => exact .ok trivial
  | cons frame frames induction =>
      cases frame with
      | schedNextRr =>
          have same : SameButStats kernel.core.countTransition.chargeReady kernel.core :=
            (SameButStats.charge _ _).trans (.countTransition _)
          apply (induction (disciplined.sameButStats same)).allow
          intro failure failed
          rcases failed with ⟨buffer, count, i, top, strays⟩
          exact ⟨buffer, count, i, top, strays.of_sameButStats same⟩
      | sysReadLoop buffer count i =>
          have loop := readLoop_strays disciplined buffer count i
          apply FailsOnly.bind (loop.allow _) fun outcome => .ok trivial
          exact fun failure strays => ⟨buffer, count, i, rfl, strays⟩
      | _ => exact .ok trivial

end Readers

/-! ## Over runs -/

section Runs

variable {kernel : SequenceKernel}

theorem resume_enabled {core : Core} (inKernel : core.inKernel = true) :
    Event.resume.Enabled core := by
  refine ⟨trivial, ?_⟩
  rw [if_pos rfl]
  exact inKernel

theorem interrupt_enabled {core : Core} (user : core.inKernel = false) {event : Event}
    (interrupt : event.IsInterrupt = true) : event.Enabled core := by
  have notResume : event ≠ .resume := fun same => by
    rw [same] at interrupt
    cases interrupt
  constructor
  · cases event with
    | clock => trivial
    | keyboard llegit => trivial
    | _ => cases interrupt
  · rw [if_neg notResume]
    exact ⟨user, .inl interrupt⟩

/-- A reader that sees no character in the ring leaves the processor to another task, which
does not read. -/
theorem parkFront_unread (disciplined : Disciplined kernel) (suspended : Suspended kernel)
    (notIdle : kernel.core.current ≠ kernel.core.idleTask) (frames : List Frame) :
    (kernel.parkFront .keyboardqueue frames).core.current ≠ kernel.core.current ∧
      ∀ buffer count i, topFrame (kernel.parkFront .keyboardqueue frames).currentTask.kernelEsp ≠
        some (.sysReadLoop buffer count i) := by
  have orderly := disciplined.toOrderly.toFront (agreesBut_setState kernel _ _)
    (@mayEnter_setState kernel .keyboardqueue _ (fun _ => notIdle) fun _ same => by cases same)
  have unread := @waits_unread kernel disciplined suspended notIdle _ frames orderly
    ((Sequences.toFront_unlinked disciplined.currentUnlinked).trans (if_neg Queue.noConfusion))
  have parked : Disciplined (kernel.parkFront .keyboardqueue frames) :=
    parkFront_disciplined disciplined (fun _ => notIdle) (fun _ same => by cases same)
      fun same => absurd same notIdle
  have waiting := @parkFront_elements _ .keyboardqueue disciplined frames .keyboardqueue
    Queue.noConfusion
  rw [if_pos rfl] at waiting
  constructor
  · intro same
    apply parked.currentUnlinked
    refine ⟨.keyboardqueue, ?_⟩
    rw [same, waiting]
    exact List.mem_cons_self
  · intro buffer count i top
    exact unread (.inr ⟨buffer, count, i, top⟩)

theorem notIdle_of_reads (disciplined : Disciplined kernel) {buffer : Nat} {count i : Int}
    (reads : topFrame kernel.currentTask.kernelEsp = some (.sysReadLoop buffer count i)) :
    kernel.core.current ≠ kernel.core.idleTask := by
  intro idle
  apply not_reads_of_interrupt disciplined.idleStack
  rw [← idle]
  exact .inr ⟨buffer, count, i, reads⟩

theorem ResumeOutcome.user_or_waits (disciplined : Disciplined kernel)
    (suspended : Suspended kernel) (user : kernel.core.inKernel = false)
    (notIdle : kernel.core.current ≠ kernel.core.idleTask) {after : SequenceKernel}
    (outcome : ResumeOutcome kernel after) :
    after.core.inKernel = false ∨
      after.core.inKernel = true ∧ after.core.circbuff.visible = 0 ∧
        after.core.current ≠ kernel.core.current ∧ ∀ buffer count i,
          topFrame after.currentTask.kernelEsp ≠ some (.sysReadLoop buffer count i) := by
  cases outcome with
  | idles top => exact .inl user
  | interrupt frame top kind => exact .inl rfl
  | returns frame top kind => exact .inl rfl
  | waited top => exact .inl rfl
  | reads buffer count i top outcome loop =>
      cases loop with
      | finished taken core takes complete => exact .inl rfl
      | waits taken core takes more drained =>
          have kept := takes.withInput
          have moved : Disciplined ⟨core, kernel.queues⟩ := by
            rw [kept]
            exact disciplined.withInput _ _ _
          have stillSuspended : Suspended ⟨core, kernel.queues⟩ := by
            rw [kept]
            exact suspended.withInput _ _ _
          have current : core.current = kernel.core.current := by rw [kept]; rfl
          have stillNotIdle : core.current ≠ core.idleTask := by
            rw [kept]
            exact notIdle
          rcases parkFront_unread moved stillSuspended stillNotIdle
            [.sysReadLoop buffer count (i + taken.length)] with ⟨switched, unread⟩
          right
          refine ⟨(parkFront_frame _ _ _).2.2.2.2, ?_, ?_, unread⟩
          · simpa [finishCall, parkFront] using drained
          · rw [← current]
            exact switched

theorem comesBack_of_invariants (disciplined : Disciplined kernel) (suspended : Suspended kernel)
    (inKernel : kernel.core.inKernel = true) : kernel.ComesBack := by
  by_cases reading : ∃ buffer count i,
      topFrame kernel.currentTask.kernelEsp = some (.sysReadLoop buffer count i)
  · rcases reading with ⟨buffer, count, i, reads⟩
    have enabled := resume_enabled inKernel
    cases executed : kernel.execute .resume with
    | error failure =>
        rcases (resumeFrames_strays (disciplined.entered .resume) _).of_error executed with
          ⟨buffer', count', i', top, strays⟩
        exact .faults buffer' count' i' failure top strays executed
    | ok after =>
        rcases (execute_effect disciplined enabled).of_ok executed with ⟨core, same, effect⟩
        have entry := same.entry
        have current := entry.current
        have moved := (disciplined.entered .resume).sameButStats same
        have notIdle : core.current ≠ core.idleTask := by
          rw [current, entry.idleTask]
          exact notIdle_of_reads disciplined reads
        cases effect with
        | resume outcome =>
            rcases outcome.user_or_waits moved (suspended.entered entry) entry.inKernel notIdle with
              user | ⟨still, drained, switched, unread⟩
            · exact .returns after executed user
            · rcases resume_user unread with ⟨final, resumed, user⟩
              have switched : after.core.current ≠ kernel.core.current := by
                rw [← current]
                exact switched
              exact .waits buffer count i after final reads executed still drained switched
                resumed user
  · rcases resume_user fun buffer count i top => reading ⟨buffer, count, i, top⟩ with
      ⟨after, executed, user⟩
    exact .returns after executed user

theorem suspended_of_run {machine : Machine} {first last : SequenceKernel}
    {history : List Recorded} (run : (checkedZeos machine).Run first history last)
    (disciplined : Disciplined first) (suspended : Suspended first) : Suspended last := by
  induction run with
  | nil => exact suspended
  | snoc earlier step induction =>
      exact step_suspended (disciplined_of_run earlier disciplined) induction step

theorem reachable_suspended {machine : Machine}
    (reachable : (checkedZeos machine).Reachable kernel) : Suspended kernel := by
  rcases reachable with ⟨history, first, start, run⟩
  have boot := Except.ok.inj (start.symm.trans (boot_sequences machine))
  subst boot
  exact suspended_of_run run (boot_disciplined machine) (boot_suspended machine)

theorem Mirrored.comesBack_pointers {pointer : PointerKernel} (mirrored : Mirrored pointer)
    (inKernel : pointer.core.inKernel = true) (comesBack : pointer.toSequences.ComesBack) :
    pointer.ComesBack := by
  have enabled := resume_enabled inKernel
  cases comesBack with
  | returns after executed user =>
      rcases mirrored.executes enabled executed with ⟨next, here, same⟩
      subst same
      exact .returns next here user
  | waits buffer count i waiting after reads executed still drained switched resumed user =>
      rcases mirrored.executes enabled executed with ⟨next, here, same⟩
      subst same
      rcases ((mirrored.execute enabled).1 next here).1.executes (resume_enabled still) resumed with
        ⟨final, there, same⟩
      subst same
      exact .waits buffer count i next final reads here still drained switched there user
  | faults buffer count i failure reads strays failed =>
      exact .faults buffer count i failure reads strays
        (((mirrored.execute enabled).2 _).mpr failed)

theorem clkRoutine_served (disciplined : Disciplined kernel) :
    ∃ after, kernel.clkRoutine = .ok after := by
  let ticked : Core :=
    { kernel.core.enterSystem with zeosTicks := Core.wrap (kernel.core.enterSystem.zeosTicks + 1) }
  have counted : Disciplined ⟨ticked.updateSchedDataRr, kernel.queues⟩ :=
    disciplined.congr 0 ⟨fun t _ => by simp [ticked, Core.updateSchedDataRr],
      by simp [ticked, Core.updateSchedDataRr], by simp [ticked, Core.updateSchedDataRr],
      by simp [ticked, Core.updateSchedDataRr]⟩ (by simp [ticked, Core.updateSchedDataRr])
      (by simp [ticked, Core.updateSchedDataRr])
  rcases @schedule_outcome ⟨ticked, kernel.queues⟩ counted with ⟨-, after, -, scheduled, -⟩
  have schedules : Kernel.schedule (kernel.mapCore fun core => { core.enterSystem with
      zeosTicks := Core.wrap (core.enterSystem.zeosTicks + 1) }) [.clkRoutine] = _ := scheduled
  refine ⟨after.leaveUnlessSwitched, ?_⟩
  unfold clkRoutine
  dsimp only
  rw [schedules]
  rfl

theorem keyboardRoutine_served (disciplined : Disciplined kernel) (llegit : UInt8) :
    ∃ after, kernel.keyboardRoutine llegit = .ok after := by
  have entered : Disciplined ⟨kernel.core.enterSystem, kernel.queues⟩ :=
    disciplined.sameButStats (.charge _ _)
  unfold keyboardRoutine
  dsimp only
  split
  · exact ⟨_, rfl⟩
  · rename_i accepted
    rw [not_or, not_or] at accepted
    rcases deliverKey_outcome entered (charOf llegit) accepted.2.2 with ⟨after, delivered, -⟩
    have delivers : (kernel.mapCore Core.enterSystem).deliverKey (charOf llegit) = _ := delivered
    rw [delivers]
    exact ⟨_, rfl⟩

theorem interrupt_served (disciplined : Disciplined kernel) {event : Event}
    (interrupt : event.IsInterrupt = true) : ∃ after, kernel.execute event = .ok after := by
  cases event with
  | clock => exact clkRoutine_served disciplined
  | keyboard llegit => exact keyboardRoutine_served disciplined llegit
  | _ => cases interrupt

end Runs

/-- Whenever the kernel has the processor, the task that it was switched to is back in user
mode once it is resumed, or a reader waits again and the task behind it is, unless the reader's
buffer runs into a page that is absent or the kernel's. In user mode every interrupt is served. -/
theorem comesBack {machine : Machine} {kernel : PointerKernel}
    (reachable : (zeos machine).Reachable kernel) :
    (kernel.core.inKernel = true → kernel.ComesBack) ∧
      (kernel.core.inKernel = false → ∀ event : Event, event.IsInterrupt = true →
        ∃ after, kernel.execute event = .ok after) := by
  rcases reachable with ⟨history, reaches⟩
  rcases run_toSequences reaches with ⟨mirrored, sequences⟩
  have disciplined := mirrored.disciplined
  constructor
  · intro inKernel
    exact mirrored.comesBack_pointers inKernel
      (comesBack_of_invariants disciplined (reachable_suspended ⟨_, sequences⟩) inKernel)
  · intro user event interrupt
    rcases @interrupt_served kernel.toSequences disciplined event interrupt with
      ⟨after, executed⟩
    rcases mirrored.executes (interrupt_enabled user interrupt) executed with ⟨next, here, -⟩
    exact ⟨next, here⟩

def threadSwitched : List Event := [.semInit 0 0, .clone 1048576 1081344, .semWait 0]

theorem comesBack_thread : ∃ kernel : PointerKernel, (zeos Machine.sample).Reachable kernel ∧
    kernel.core.current = 2 ∧ kernel.ComesBack := by
  have computed : (replay threadSwitched ⟨Machine.sample.bootCore 0 1, bootLinks⟩).any (fun run =>
      decide (run.2.core.inKernel = true ∧ run.2.core.current = 2)) = true := by
    decide +kernel
  rcases reaches_of_replay computed with ⟨history, kernel, reaches, found⟩
  rw [decide_eq_true_eq] at found
  have reachable : (zeos Machine.sample).Reachable kernel := ⟨history, reaches⟩
  exact ⟨kernel, reachable, found.2, (comesBack reachable).1 found.1⟩

end Zeos
