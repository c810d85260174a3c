import Zeos.Semaphores

/-! # Ownership of semaphores

A semaphore is owned by a process number, not by a task. As long as numbers are
not reused, the owner of a semaphore in use is alive, because an exit destroys
what the task owned.
-/

namespace Zeos

open Foundation Kernel

/-- The semaphores in use are owned by tasks that are alive. -/
structure OwnersLive (kernel : SequenceKernel) : Prop where
  owner : ∀ sem, (kernel.core.semArray sem).ownerPid = -1 ∨
    ∃ t, kernel.Live t ∧ (kernel.core.task t).pid = (kernel.core.semArray sem).ownerPid
  waiters : ∀ sem, kernel.queues.elements (.blocked sem) ≠ [] →
    ∃ t, kernel.Live t ∧ (kernel.core.task t).pid = (kernel.core.semArray sem).ownerPid

/-- An exit leaves no semaphore with the number of the task, releases those who
waited for it, and does not touch those who wait for others. -/
structure ExitClean (transition : Recorded) : Prop where
  disowned : ∀ sem, (transition.after.core.semArray sem).ownerPid ≠
    transition.before.currentTask.pid
  released : ∀ sem, transition.before.OwnedByCurrent sem →
    transition.after.queues.elements (.blocked sem) = []
  kept : ∀ sem, ¬transition.before.OwnedByCurrent sem →
    transition.after.core.semArray sem = transition.before.core.semArray sem ∧
    transition.after.queues.elements (.blocked sem) =
      transition.before.queues.elements (.blocked sem) ∧
    ∀ t ∈ transition.before.queues.elements (.blocked sem),
      transition.after.core.task t =
        { transition.before.core.task t with pStats := (transition.after.core.task t).pStats }

section Exits

variable {kernel after : SequenceKernel}

theorem dispatch_task_of_waiting (kernel : SequenceKernel) (frames : List Frame) {t : TaskId}
    (notCurrent : t ≠ kernel.core.current)
    (notReady : t ∉ kernel.queues.elements .readyqueue) :
    (kernel.dispatch frames).core.task t =
      { kernel.core.task t with pStats := ((kernel.dispatch frames).core.task t).pStats } := by
  unfold dispatch
  cases contents : kernel.queues.elements .readyqueue with
  | nil => simp [notCurrent]
  | cons next rest =>
      rw [contents, List.mem_cons, not_or] at notReady
      simp [notCurrent, notReady.1]

theorem ExitOutcome.clean (disciplined : Disciplined kernel)
    (notNegative : 0 ≤ kernel.currentTask.pid) (exited : ExitOutcome kernel after) :
    ExitClean ⟨kernel, .exit, after⟩ := by
  cases exited with
  | exited released destroyed mm freed =>
      have current := destroyed.woken.current_eq
      have unlinked := destroyed.woken.current_unlinked disciplined
      have queues : ∀ sem, (released.retire mm).queues.elements (.blocked sem) =
          released.queues.elements (.blocked sem) := fun sem => by
        rw [retire_elements destroyed.orderly unlinked mm Queue.noConfusion,
          if_neg Queue.noConfusion]
      refine ⟨fun sem => ?_, fun sem owned => ?_, fun sem other => ?_⟩
      · show ((released.retire mm).core.semArray sem).ownerPid ≠ kernel.currentTask.pid
        simp only [retire_frame]
        by_cases owned : kernel.OwnedByCurrent sem
        · rw [destroyed.gone owned]
          intro same
          have same : -1 = kernel.currentTask.pid := same
          omega
        · rw [destroyed.kept owned]
          intro same
          exact owned ⟨by omega, same⟩
      · exact (queues sem).trans (destroyed.woken.emptied owned)
      · have waiters := destroyed.woken.blocked other
        refine ⟨?_, (queues sem).trans waiters, fun t waiting => ?_⟩
        · show (released.retire mm).core.semArray sem = _
          simp only [retire_frame]
          exact destroyed.kept other
        · have member : t ∈ released.queues.elements (.blocked sem) := by rwa [waiters]
          have notCurrent : t ≠ released.core.current := fun same =>
            unlinked ⟨_, same ▸ member⟩
          have notReady : t ∉ (released.freed mm).queues.elements .readyqueue := by
            rw [Kernel.freed, Sequences.toTail_unlinked unlinked, if_neg Queue.noConfusion]
            exact destroyed.orderly.placed.not_elsewhere member Queue.noConfusion
          have untouched : released.core.task t = kernel.core.task t :=
            destroyed.woken.others fun called chosen inOther => by
              have same := disciplined.placed.apart waiting inOther
              cases same
              exact other chosen
          show (released.retire mm).core.task t = { kernel.core.task t with
            pStats := ((released.retire mm).core.task t).pStats }
          rw [← untouched]
          refine (dispatch_task_of_waiting (released.freed mm) [.sysExit]
            (by simpa [Kernel.freed] using notCurrent) notReady).trans ?_
          simp [Kernel.freed, notCurrent, retire]

theorem Entry.currentTask_pid {before : SequenceKernel} {core : Core} {event : Event}
    (entry : Entry event before.core core) :
    (Kernel.currentTask ⟨core, before.queues⟩).pid = before.currentTask.pid := by
  show (core.task core.current).pid = _
  rw [entry.current, entry.task]
  rfl

theorem Entry.ownedByCurrent {before : SequenceKernel} {core : Core} {event : Event}
    (entry : Entry event before.core core) (sem : SemId) :
    Kernel.OwnedByCurrent ⟨core, before.queues⟩ sem ↔ before.OwnedByCurrent sem := by
  rw [OwnedByCurrent, OwnedByCurrent, entry.currentTask_pid, entry.semArray]

theorem ExitClean.ofEntry {before : SequenceKernel} {core : Core} {event : Event}
    (entry : Entry event before.core core)
    (clean : ExitClean ⟨⟨core, before.queues⟩, event, after⟩) :
    ExitClean ⟨before, event, after⟩ := by
  refine ⟨fun sem => ?_, fun sem own => clean.released sem ((entry.ownedByCurrent sem).mpr own),
    fun sem other => ?_⟩
  · have disowned := clean.disowned sem
    rw [entry.currentTask_pid] at disowned
    exact disowned
  · rcases clean.kept sem (mt (entry.ownedByCurrent sem).mp other) with ⟨semaphore, waiters, tasks⟩
    refine ⟨semaphore.trans (congrFun entry.semArray sem), waiters, fun t waiting => ?_⟩
    rw [tasks t waiting]
    dsimp only
    rw [entry.task]

end Exits

section Steps

variable {machine : Machine} {before after : SequenceKernel} {event : Event}

theorem step_exitClean (disciplined : Disciplined before) (numbered : before.processes.Numbered)
    (step : (checkedZeos machine).step before .exit after) :
    ExitClean ⟨before, .exit, after⟩ := by
  rcases step_effect disciplined step with ⟨core, entry, entered, -, effect⟩
  cases effect with
  | exit exited =>
      apply ExitClean.ofEntry entry
      apply exited.clean entered
      rw [entry.currentTask_pid]
      exact numbered.taken _ (disciplined.sound.liveNotFree disciplined.sound.callerLive)

theorem ProcessStep.keepsLive {view after : Processes} {caller t : TaskId} {event : Event}
    (sound : view.Sound caller) (step : ProcessStep view caller event after) (live : view.live t)
    (stays : event = .exit → t ≠ caller) : after.live t ∧ after.pid t = view.pid t := by
  cases step with
  | keeps event after keeps full => exact ⟨(keeps.live t).mpr live, congrFun keeps.pid t⟩
  | noMemory child rest free mm outOfFrames => exact ⟨live, sound.update_live free live _ _⟩
  | forked child rest free mm copied => exact ⟨.inl live, sound.update_live free live _ _⟩
  | cloned function stack child rest free => exact ⟨.inl live, sound.update_live free live _ _⟩
  | exited mm freed =>
      exact ⟨⟨live, stays rfl⟩, Function.update_of_ne (stays rfl) _ _⟩
  | moved amount mm result outcome => exact ⟨live, rfl⟩

theorem SemStep.owner {sem : SemId} {caller : TaskId} {pid : Int} {view later : SemView}
    (step : SemStep sem event caller pid view later) :
    later.ownerPid = view.ownerPid ∨ later.ownerPid = -1 ∨
      later.ownerPid = pid ∧ event ≠ .exit := by
  cases step with
  | initialised counter nSem value init index =>
      subst init
      exact .inr (.inr ⟨rfl, Event.noConfusion⟩)
  | destroyed counter owner waiters owned => exact .inr (.inl rfl)
  | _ => exact .inl rfl

theorem ownersLive_step (disciplined : Disciplined before)
    (numbered : before.processes.Numbered) (step : (checkedZeos machine).step before event after)
    (live : OwnersLive before) : OwnersLive after := by
  have processes := step_processes disciplined step
  have later := execute_disciplined disciplined step.1 step.2
  have survives : ∀ {t}, before.Live t → (event = .exit → t ≠ before.core.current) →
      after.Live t ∧ (after.core.task t).pid = (before.core.task t).pid :=
    fun alive stays => processes.keepsLive disciplined.sound alive stays
  have owner : ∀ sem, (after.core.semArray sem).ownerPid = -1 ∨
      ∃ t, after.Live t ∧ (after.core.task t).pid = (after.core.semArray sem).ownerPid := by
    intro sem
    rcases (step_semaphores disciplined step sem).owner with kept | gone | ⟨own, notExit⟩
    · have kept : (after.core.semArray sem).ownerPid = (before.core.semArray sem).ownerPid := kept
      rcases live.owner sem with unowned | ⟨t, alive, pid⟩
      · exact .inl (kept.trans unowned)
      · refine .inr ⟨t, ?_⟩
        rw [kept, ← pid]
        apply survives alive
        intro isExit isCaller
        subst isExit
        have disowned := (step_exitClean disciplined numbered step).disowned sem
        rw [isCaller] at pid
        exact disowned (kept.trans pid.symm)
    · exact .inl gone
    · refine .inr ⟨before.core.current, ?_⟩
      have own : (after.core.semArray sem).ownerPid = before.currentTask.pid := own
      rw [own]
      exact survives (.inr (.inl rfl)) fun isExit => absurd isExit notExit
  refine ⟨owner, fun sem waiting => (owner sem).resolve_left fun unowned => ?_⟩
  exact waiting (later.unowned sem unowned)

end Steps

/-- In every reachable state the owner of a semaphore in use is alive, and so is
the owner of every semaphore with waiters. Every exit cleans up after itself. -/
theorem ownersLive {machine : Machine} {history : List (Transition PointerKernel Event)}
    {last : PointerKernel} (reaches : (zeos machine).Reaches history last) :
    OwnersLive last.toSequences ∧
      ∀ transition ∈ record history, transition.label = .exit → ExitClean transition := by
  rcases (run_toSequences reaches).2 with ⟨first, start, run⟩
  rw [init_eq start] at run
  let Owned (kernel : SequenceKernel) : Prop :=
    Disciplined kernel ∧ kernel.processes.Numbered ∧ OwnersLive kernel
  have initially : Owned ⟨machine.bootCore 0 1, bootSequences⟩ :=
    ⟨boot_disciplined machine, boot_numbered machine, fun _ => .inl rfl,
      fun _ waiting => absurd rfl waiting⟩
  have preserved : ∀ transition ∈ record history,
      (checkedZeos machine).step transition.before transition.label transition.after →
      Owned transition.before → Owned transition.after := by
    intro transition _ step owned
    rcases owned with ⟨disciplined, numbered, live⟩
    exact ⟨execute_disciplined disciplined step.1 step.2,
      (step_processes disciplined step).numbered disciplined.sound numbered,
      ownersLive_step disciplined numbered step live⟩
  refine ⟨(run.invariant initially preserved).2.2, fun transition member isExit => ?_⟩
  rcases (run.along initially preserved transition member).1 with ⟨disciplined, numbered, -⟩
  have step := run.step_of_mem member
  rcases transition with ⟨before, label, after⟩
  dsimp only at isExit step disciplined numbered
  subst isExit
  exact step_exitClean disciplined numbered step

def exitingOwner : List Event :=
  [.semInit 0 0, .clone 1048576 1081344, .semWait 0, .resume, .semInit 1 0, .exit]

theorem ownersLive_exit :
    ∃ history last, (zeos Machine.sample).Reaches history last ∧
      (∃ transition ∈ record history, transition.label = .exit) ∧
      last.toSequences.queues.elements (.blocked 0) = [1] ∧ OwnersLive last.toSequences ∧
      ∀ transition ∈ record history, transition.label = .exit → ExitClean transition := by
  have computed : (replay exitingOwner ⟨Machine.sample.bootCore 0 1, bootLinks⟩).any (fun run =>
      ((record run.1).any fun transition => transition.label = .exit) &&
        decide (run.2.toSequences.queues.elements (.blocked 0) = [1])) = true := by
    decide +kernel
  rcases reaches_of_replay computed with ⟨history, last, reaches, found⟩
  rw [Bool.and_eq_true, decide_eq_true_eq, List.any_eq_true] at found
  rcases found with ⟨⟨transition, member, isExit⟩, waiting⟩
  exact ⟨history, last, reaches, ⟨transition, member, of_decide_eq_true isExit⟩, waiting,
    ownersLive reaches⟩

end Zeos
