import Zeos.CpuTime
import Zeos.ProcessNumbers

/-! # User contexts

What a task finds in its registers when it is back in user mode. The kernel writes
the saved context of a task only when it returns to the task from a system call,
and builds that of a new one from the caller's.
-/

namespace Zeos

open Foundation Kernel

def Kernel.context (kernel : SequenceKernel) (t : TaskId) : UserContext :=
  (kernel.core.task t).context

def SameContexts (kernel after : SequenceKernel) : Prop :=
  ∀ t, kernel.Live t → after.context t = kernel.context t

/-- What a step does to the contexts: nothing, or it returns from a call to the task that
has the processor. -/
inductive ContextStep (kernel after : SequenceKernel) : Prop
  | keeps (same : SameContexts kernel after) : ContextStep kernel after
  | returns (eax : Int) (here : after.UserMode kernel.core.current)
      (result : after.context kernel.core.current =
        { kernel.context kernel.core.current with eax := eax })
      (others : ∀ t, kernel.Live t → t ≠ kernel.core.current →
        after.context t = kernel.context t) : ContextStep kernel after

section Outcomes

variable {kernel after : SequenceKernel}

theorem SameContexts.refl (kernel : SequenceKernel) : SameContexts kernel kernel :=
  fun _ _ => rfl

@[simp] theorem dispatch_context (kernel : SequenceKernel) (frames : List Frame) (t : TaskId) :
    (kernel.dispatch frames).context t = kernel.context t :=
  (dispatch_task_frame kernel frames t).2.2.2.2.2

@[simp] theorem parkTail_context (kernel : SequenceKernel) (queue : Queue) (frames : List Frame)
    (t : TaskId) : (kernel.parkTail queue frames).context t = kernel.context t := by
  rw [parkTail, dispatch_context]
  simp [context]

@[simp] theorem parkFront_context (kernel : SequenceKernel) (queue : Queue) (frames : List Frame)
    (t : TaskId) : (kernel.parkFront queue frames).context t = kernel.context t := by
  rw [parkFront, dispatch_context]
  simp [context]

@[simp] theorem leaveUnlessSwitched_context (kernel : SequenceKernel) (t : TaskId) :
    kernel.leaveUnlessSwitched.context t = kernel.context t := by
  unfold leaveUnlessSwitched
  split
  · rfl
  · simp [context, mapCore]

/-- A call that is done returns to the caller, and one that gave up the processor leaves the
contexts alone. -/
theorem ContextStep.finishCall {outcome : SequenceKernel × Option Int}
    (same : SameContexts kernel outcome.1)
    (current : ∀ result, outcome.2 = some result → outcome.1.core.current = kernel.core.current)
    (live : kernel.Live kernel.core.current) :
    ContextStep kernel (Kernel.finishCall outcome) := by
  rcases outcome with ⟨called, result⟩
  cases result with
  | none => exact .keeps same
  | some result =>
      have caller : called.core.current = kernel.core.current := current result rfl
      have written : ∀ t, (Kernel.finishCall (called, some result)).context t =
          if t = called.core.current then { called.context t with eax := result }
          else called.context t := by
        intro t
        by_cases isCaller : t = called.core.current <;>
          simp [Kernel.finishCall, mapCore, context, isCaller]
      refine .returns result ⟨caller, rfl⟩ ?_ fun t alive other => ?_
      · rw [written, if_pos caller.symm, same _ live]
      · rw [written, if_neg (caller ▸ other), same t alive]

theorem ForkOutcome.contexts (disciplined : Disciplined kernel) {outcome : SequenceKernel × Int}
    (forked : ForkOutcome kernel outcome) : SameContexts kernel outcome.1 := by
  intro t live
  have notFree := disciplined.live_not_free live
  cases forked with
  | full empty => rfl
  | noMemory child rest free mm outOfFrames =>
      have different : t ≠ child := fun same => notFree (by simp [free, same])
      simp [context, forkFailed, different]
  | forked child rest free mm copied =>
      have different : t ≠ child := fun same => notFree (by simp [free, same])
      simp [context, Kernel.forked, different]

theorem CloneOutcome.contexts (disciplined : Disciplined kernel) {function stack : Nat}
    {outcome : SequenceKernel × Int} (cloned : CloneOutcome kernel function stack outcome) :
    SameContexts kernel outcome.1 := by
  intro t live
  have notFree := disciplined.live_not_free live
  cases cloned with
  | refused error negative => rfl
  | cloned child rest free =>
      have different : t ≠ child := fun same => notFree (by simp [free, same])
      simp [context, Kernel.cloned, Core.cloneTo, different]

theorem Woken.contexts {which : SemId → Prop} (woken : Woken which kernel after) :
    SameContexts kernel after := by
  intro t _
  by_cases waiting : ∃ sem, which sem ∧ t ∈ kernel.queues.elements (.blocked sem)
  · rcases waiting with ⟨sem, chosen, member⟩
    rw [context, woken.woken chosen member]
    rfl
  · rw [context, woken.others fun sem chosen member => waiting ⟨sem, chosen, member⟩]
    rfl

theorem ExitOutcome.contexts (exited : ExitOutcome kernel after) :
    SameContexts kernel after := by
  cases exited with
  | exited released destroyed mm freed =>
      intro t live
      rw [Kernel.retire, dispatch_context, ← destroyed.woken.contexts t live]
      by_cases isCaller : t = released.core.current <;> simp [context, Kernel.freed, isCaller]

theorem LoopOutcome.contexts {buffer : Nat} {count i : Int}
    {outcome : SequenceKernel × Option Int} (loop : LoopOutcome kernel buffer count i outcome) :
    SameContexts kernel outcome.1 ∧
      ∀ result, outcome.2 = some result → outcome.1.core.current = kernel.core.current := by
  cases loop with
  | finished taken core takes complete =>
      rw [takes.rest]
      exact ⟨fun _ _ => rfl, fun _ _ => rfl⟩
  | waits taken core takes more drained =>
      refine ⟨fun t _ => ?_, fun _ absent => by cases absent⟩
      rw [parkFront_context, takes.rest]
      rfl

theorem ReadCall.contexts {fd : Int} {buffer : Nat} {count i : Int}
    {outcome : SequenceKernel × Option Int} (call : ReadCall kernel fd buffer count i outcome) :
    SameContexts kernel outcome.1 ∧
      ∀ result, outcome.2 = some result → outcome.1.core.current = kernel.core.current := by
  cases call with
  | refused error positive invalid => exact ⟨.refl kernel, fun _ _ => rfl⟩
  | loops accepted alone outcome loop => exact loop.contexts
  | queued accepted behind =>
      refine ⟨fun t _ => ?_, fun _ absent => by cases absent⟩
      rw [parkTail_context]
      rfl

theorem KeyOutcome.contexts {result : UInt8} (key : KeyOutcome kernel result after) :
    SameContexts kernel after := by
  intro t _
  cases key with
  | buffered reader rest waiting incomplete => rfl
  | wakes reader rest waiting complete =>
      rw [parkTail_context]
      simp [context, Core.withInput]

theorem ClockOutcome.contexts (clock : ClockOutcome kernel after) :
    SameContexts kernel after := by
  intro t _
  cases clock with
  | continues left => rfl
  | idles expired idle => exact dispatch_context _ _ _
  | preempts expired notIdle => exact parkTail_context _ _ _ _

theorem ResumeOutcome.contexts (live : kernel.Live kernel.core.current)
    (resumed : ResumeOutcome kernel after) : ContextStep kernel after := by
  cases resumed with
  | idles top => exact .keeps (.refl kernel)
  | interrupt frame top kind => exact .keeps fun t _ => by simp [context, mapCore]
  | returns frame top kind => exact .finishCall (.refl kernel) (fun _ _ => rfl) live
  | waited top =>
      refine .finishCall (fun t _ => ?_) (fun _ _ => ?_) live
      · simp [context]
      · simp
  | reads buffer count i top outcome loop =>
      exact .finishCall loop.contexts.1 loop.contexts.2 live

theorem Effect.contexts (disciplined : Disciplined kernel) {event : Event}
    (effect : Effect kernel event after) : ContextStep kernel after := by
  have live : kernel.Live kernel.core.current := disciplined.sound.callerLive
  cases effect with
  | resume outcome => exact outcome.contexts live
  | clock outcome =>
      refine .keeps fun t alive => ?_
      rw [leaveUnlessSwitched_context]
      exact outcome.contexts t alive
  | ignored llegit refused => exact .keeps fun t _ => by simp [context, mapCore]
  | keyboard llegit accepted outcome =>
      refine .keeps fun t alive => ?_
      rw [leaveUnlessSwitched_context]
      exact outcome.contexts t alive
  | getpid result => exact .finishCall (.refl kernel) (fun _ _ => rfl) live
  | gettime result => exact .finishCall (.refl kernel) (fun _ _ => rfl) live
  | fork forked =>
      refine .finishCall (forked.contexts disciplined) (fun _ _ => ?_) live
      cases forked <;> simp [forkFailed, Kernel.forked]
  | clone function stack cloned =>
      refine .finishCall (cloned.contexts disciplined) (fun _ _ => ?_) live
      cases cloned <;> simp [Kernel.cloned, Core.cloneTo]
  | exit exited => exact .keeps exited.contexts
  | sbrk amount moved =>
      refine .finishCall (fun t _ => ?_) (fun _ _ => ?_) live <;> cases moved <;> rfl
  | semInit nSem value initialised =>
      refine .finishCall (fun t _ => ?_) (fun _ _ => ?_) live <;> cases initialised <;>
        simp [context]
  | semWait nSem waited =>
      refine .finishCall (fun t _ => ?_) (fun _ done => ?_) live
      · cases waited with
        | refused unusable => rfl
        | passes sem index owned positive => simp [context]
        | blocks sem index owned exhausted => exact parkTail_context _ _ _ _
      · cases waited with
        | refused unusable => rfl
        | passes sem index owned positive => simp
        | blocks sem index owned exhausted => cases done
  | semSignal nSem signalled =>
      refine .finishCall (fun t _ => ?_) (fun _ _ => ?_) live <;> cases signalled <;>
        simp [context, Kernel.wake]
  | semDestroy nSem destroyed =>
      cases destroyed with
      | refused unusable => exact .finishCall (.refl kernel) (fun _ _ => rfl) live
      | notOwner sem index owned other => exact .finishCall (.refl kernel) (fun _ _ => rfl) live
      | destroyed sem index owned owner after woken orderly semArray =>
          exact .finishCall woken.contexts (fun _ _ => woken.current_eq) live
  | read fd buffer count i call => exact .finishCall call.contexts.1 call.contexts.2 live
  | write fd buffer size result => exact .finishCall (.refl kernel) (fun _ _ => rfl) live
  | getStats pid st told =>
      refine .finishCall (fun t _ => ?_) (fun _ _ => ?_) live
      · cases told with
        | refused error positive => rfl
        | stored found same notNegative accepted mm stored =>
            change ((kernel.core.setRemaining found).task t).context = _
            rw [Core.setRemaining_task]
            rfl
      · cases told <;> rfl
  | niSyscall => exact .finishCall (.refl kernel) (fun _ _ => rfl) live

end Outcomes

/-! ## Steps -/

section Steps

variable {machine : Machine} {before after : SequenceKernel} {event : Event}

theorem Entry.contexts (entry : Entry event before.core after.core) (t : TaskId) :
    after.context t = before.context t := by
  rw [context, entry.task]
  rfl

theorem step_contexts (disciplined : Disciplined before)
    (step : (checkedZeos machine).step before event after) : ContextStep before after := by
  rcases step_effect disciplined step with ⟨core, entry, entered, -, effect⟩
  have contexts : ∀ t, Kernel.context ⟨core, before.queues⟩ t = before.context t := fun t =>
    @Entry.contexts before ⟨core, before.queues⟩ event entry t
  have live : Kernel.Live ⟨core, before.queues⟩ = before.Live :=
    live_congr entry.idleTask entry.current (by funext t; simp only [states]; rw [entry.task])
  have current : core.current = before.core.current := entry.current
  cases effect.contexts entered with
  | keeps same =>
      refine .keeps fun t alive => ?_
      rw [← live] at alive
      exact (same t alive).trans (contexts t)
  | returns eax here result others =>
      change after.UserMode core.current at here
      change after.context core.current =
        { Kernel.context ⟨core, before.queues⟩ core.current with eax := eax } at result
      rw [contexts] at result
      rw [current] at here result
      refine .returns eax here result fun t alive other => ?_
      rw [← live] at alive
      rw [← current] at other
      exact (others t alive other).trans (contexts t)

end Steps

/-! ## The first return -/

/-- Where a new task starts: at the caller's place, or at the function and on the stack that a
clone is given. -/
def newContext (event : Event) (caller : UserContext) : UserContext :=
  match event with
  | .clone function stack => { caller with eip := function, esp := stack }
  | _ => caller

/-- The caller is back with the number of the new task, which has a context of its own. -/
structure ReturnsToCaller (child : TaskId) (creation : Recorded) : Prop where
  here : creation.after.UserMode creation.before.core.current
  caller : creation.after.context creation.before.core.current =
    { creation.before.context creation.before.core.current with
      eax := (creation.after.core.task child).pid }
  child : creation.after.context child =
    newContext creation.label (creation.before.context creation.before.core.current)

section Creations

variable {kernel before after : SequenceKernel} {machine : Machine} {event : Event}
  {child t : TaskId}

theorem forkFailed_live (disciplined : Disciplined kernel)
    (free : child ∈ kernel.queues.elements .freequeue) (mm : Mm)
    (live : (kernel.forkFailed child mm).Live t) : kernel.Live t := by
  by_cases isChild : t = child
  · have notIdle := child_ne_idle disciplined free
    have notCurrent := child_ne_current disciplined free
    simp [forkFailed, Live, isChild, notIdle, notCurrent, disciplined.running] at live
  · simpa [forkFailed, Live, isChild] using live

theorem forked_live (different : t ≠ child) (mm : Mm)
    (live : (kernel.forked child mm).Live t) : kernel.Live t := by
  simpa [Kernel.forked, Live, different] using live

theorem cloned_live (different : t ≠ child) (function stack : Nat)
    (live : (kernel.cloned child function stack).Live t) : kernel.Live t := by
  simpa [Kernel.cloned, Core.cloneTo, Live, different] using live

theorem finishCall_live (outcome : SequenceKernel × Option Int) :
    (finishCall outcome).Live = outcome.1.Live :=
  congrArg Processes.live (finishCall_processes outcome)

theorem ForkOutcome.returnsToCaller (disciplined : Disciplined kernel)
    {outcome : SequenceKernel × Int} (forked : ForkOutcome kernel outcome)
    (new : ¬kernel.Live child) (live : outcome.1.Live child) :
    outcome.1.core.current = kernel.core.current ∧
      outcome.2 = (outcome.1.core.task child).pid ∧
      outcome.1.context kernel.core.current = kernel.context kernel.core.current ∧
      outcome.1.context child = kernel.context kernel.core.current := by
  have caller := forked.contexts disciplined _ disciplined.sound.callerLive
  cases forked with
  | full empty => exact absurd live new
  | noMemory other rest free mm outOfFrames =>
      exact absurd (forkFailed_live disciplined (by simp [free]) mm live) new
  | forked other rest free mm copied =>
      have same : child = other := by
        by_contra different
        exact new (forked_live different mm live)
      subst same
      refine ⟨by simp [Kernel.forked], by simp [Kernel.forked], caller, ?_⟩
      simp [context, Kernel.forked]

theorem CloneOutcome.returnsToCaller (disciplined : Disciplined kernel) {function stack : Nat}
    {outcome : SequenceKernel × Int} (cloned : CloneOutcome kernel function stack outcome)
    (new : ¬kernel.Live child) (live : outcome.1.Live child) :
    outcome.1.core.current = kernel.core.current ∧
      outcome.2 = (outcome.1.core.task child).pid ∧
      outcome.1.context kernel.core.current = kernel.context kernel.core.current ∧
      outcome.1.context child =
        { kernel.context kernel.core.current with eip := function, esp := stack } := by
  have caller := cloned.contexts disciplined _ disciplined.sound.callerLive
  cases cloned with
  | refused error negative => exact absurd live new
  | cloned other rest free =>
      have same : child = other := by
        by_contra different
        exact new (cloned_live different function stack live)
      subst same
      refine ⟨by simp [Kernel.cloned, Core.cloneTo], by simp [Kernel.cloned, Core.cloneTo],
        caller, ?_⟩
      simp [context, Kernel.cloned, Core.cloneTo]

theorem ReturnsToCaller.finish {outcome : SequenceKernel × Int}
    (entry : Entry event before.core kernel.core) (new : child ≠ before.core.current)
    (call : outcome.1.core.current = kernel.core.current ∧
      outcome.2 = (outcome.1.core.task child).pid ∧
      outcome.1.context kernel.core.current = kernel.context kernel.core.current ∧
      outcome.1.context child = newContext event (kernel.context kernel.core.current)) :
    ReturnsToCaller child ⟨before, event, finishCall (outcome.1, some outcome.2)⟩ := by
  rcases call with ⟨current, number, caller, fresh⟩
  have same : outcome.1.core.current = before.core.current := current.trans entry.current
  rw [← current, same, entry.contexts] at caller fresh
  constructor
  · exact ⟨same, rfl⟩
  · rw [← caller]
    simp [finishCall, mapCore, context, same, number, new]
  · rw [← fresh]
    simp [finishCall, mapCore, context, same, new]

theorem step_returnsToCaller (accountable : Accountable before)
    (step : (checkedZeos machine).step before event after)
    (creates : Creates child ⟨before, event, after⟩) :
    ReturnsToCaller child ⟨before, event, after⟩ := by
  rcases creates.first accountable step with ⟨-, creation⟩
  rcases step_effect accountable.disciplined step with ⟨core, entry, entered, -, effect⟩
  rcases creates with ⟨dead, live⟩
  have apart : child ≠ before.core.current := fun same => dead (.inr (.inl same))
  have same : Kernel.Live ⟨core, before.queues⟩ = before.Live :=
    congrArg Processes.live (entry_processes entry)
  have new : ¬Kernel.Live ⟨core, before.queues⟩ child := fun old => dead (same ▸ old)
  change after.Live child at live
  cases effect with
  | fork forked =>
      rw [finishCall_live] at live
      exact .finish entry apart (forked.returnsToCaller entered new live)
  | clone function stack cloned =>
      rw [finishCall_live] at live
      exact .finish entry apart (cloned.returnsToCaller entered new live)
  | _ => exact creation.elim

end Creations

/-! ## Waiting for the first return -/

/-- A new task that has not been in user mode yet, with the context that it is to find there. -/
structure Unstarted (kernel : SequenceKernel) (t : TaskId) (fresh : UserContext) : Prop where
  live : kernel.Live t
  stack : (kernel.core.task t).kernelEsp = [.retFromFork]
  switched : kernel.core.current = t → kernel.core.inKernel = true
  kept : kernel.context t = fresh

section Waiting

variable {machine : Machine} {before after : SequenceKernel} {event : Event} {t : TaskId}
  {fresh : UserContext}

theorem Unstarted.stays (unstarted : Unstarted before t fresh) (accountable : Accountable before)
    (step : (checkedZeos machine).step before event after)
    (later : ¬FirstReturn t ⟨before, event, after⟩) : Unstarted after t fresh := by
  have away : t ≠ before.core.current := by
    intro here
    have inKernel := unstarted.switched here.symm
    have mode := step.1.2
    by_cases resumes : event = .resume
    · exact later ⟨resumes, here.symm, unstarted.stack⟩
    · rw [if_neg resumes] at mode
      exact Bool.noConfusion (mode.1.symm.trans inKernel)
  rcases step_posts accountable step with ⟨closing, posts⟩
  have disciplined := accountable.disciplined
  have processes := step_processes disciplined step
  constructor
  · exact (processes.keepsLive disciplined.sound unstarted.live fun _ => away).1
  · rw [posts.stack t unstarted.live away]
    exact unstarted.stack
  · intro here
    rcases posts.current with stays | switched
    · exact absurd (here.symm.trans stays.1) away
    · exact switched.1
  · rw [← unstarted.kept]
    cases step_contexts disciplined step with
    | keeps same => exact same t unstarted.live
    | returns eax here result others => exact others t unstarted.live away

theorem Unstarted.returns (unstarted : Unstarted before t fresh)
    (step : (checkedZeos machine).step before event after)
    (returns : FirstReturn t ⟨before, event, after⟩) :
    after.UserMode t ∧ after.context t = { fresh with eax := 0 } := by
  rcases returns with ⟨resumes, here, stack⟩
  change event = .resume at resumes
  change before.core.current = t at here
  subst resumes here
  let entered : SequenceKernel := before.mapCore fun core => { core with inKernel := false }
  have resumed : resumeFrames (before.core.task before.core.current).kernelEsp entered =
      .ok after := step.2
  rw [stack] at resumed
  cases resumed
  refine ⟨⟨rfl, rfl⟩, ?_⟩
  rw [← unstarted.kept]
  simp [finishCall, mapCore, context, entered]

theorem Unstarted.arrives (unstarted : Unstarted before t fresh) (accountable : Accountable before)
    (step : (checkedZeos machine).step before event after) (here : after.UserMode t) :
    FirstReturn t ⟨before, event, after⟩ := by
  by_contra later
  have switched := (unstarted.stays accountable step later).switched here.1
  exact Bool.noConfusion (here.2.symm.trans switched)

end Waiting

/-! ## Runs -/

section Runs

variable {machine : Machine} {first last : SequenceKernel} {history : List Recorded} {t : TaskId}
  {fresh : UserContext}

theorem unstarted_of_run (run : (checkedZeos machine).Run first history last)
    (accountable : Accountable first) (unstarted : Unstarted first t fresh)
    (away : ∀ transition ∈ history, ¬transition.after.UserMode t) :
    Accountable last ∧ Unstarted last t fresh := by
  let Waits (kernel : SequenceKernel) : Prop := Accountable kernel ∧ Unstarted kernel t fresh
  have waits : Waits last := by
    refine run.invariant ⟨accountable, unstarted⟩ fun transition member step holds => ?_
    refine ⟨step_accountable holds.1 step, holds.2.stays holds.1 step fun returns => ?_⟩
    exact away transition member (holds.2.returns step returns).1
  exact waits

/-- What the two returns of a fork or clone look like. -/
structure ReturnsTwice (child : TaskId) (creation returning : Recorded) : Prop where
  caller : ReturnsToCaller child creation
  resumed : FirstReturn child returning
  child : returning.after.context child =
    { newContext creation.label (creation.before.context creation.before.core.current) with
      eax := 0 }

theorem returnsTwice_of_reaches {front waiting back : List Recorded}
    {creation returning : Recorded} {child : TaskId}
    (reaches : (checkedZeos machine).Reaches
      (front ++ creation :: (waiting ++ returning :: back)) last)
    (creates : Creates child creation)
    (away : ∀ transition ∈ waiting, ¬transition.after.UserMode child)
    (arrives : returning.after.UserMode child) : ReturnsTwice child creation returning := by
  rcases reaches with ⟨first, start, run⟩
  rw [init_eq start] at run
  rcases run.around with ⟨earlier, step, later⟩
  rcases later.around with ⟨between, returned, -⟩
  have accountable := run_accountable earlier (boot_accountable machine)
  have caller := step_returnsToCaller accountable step creates
  rcases step_creates accountable step creates with ⟨-, stack, -, elsewhere, -⟩
  have begun : Unstarted creation.after child
      (newContext creation.label (creation.before.context creation.before.core.current)) :=
    ⟨creates.2, stack, fun here => absurd here elsewhere, caller.child⟩
  rcases unstarted_of_run between (step_accountable accountable step) begun away with
    ⟨accounts, unstarted⟩
  have resumed := unstarted.arrives accounts returned arrives
  exact ⟨caller, resumed, (unstarted.returns returned resumed).2⟩

end Runs

/-- A fork or clone that makes a task returns twice: at once to the caller with the number of
the child, and whenever the child gets the processor for the first time, to the child with 0
and the caller's context, or at the place that clone was given. -/
theorem forkReturnsTwice {machine : Machine} {history : List (Transition PointerKernel Event)}
    {last : PointerKernel} (reaches : (zeos machine).Reaches history last)
    {front since waiting back : List Recorded} {creation returning : Recorded} {child : TaskId}
    (whole : record history = front ++ creation :: since)
    (later : since = waiting ++ returning :: back) (creates : Creates child creation)
    (away : ∀ transition ∈ waiting, ¬transition.after.UserMode child)
    (arrives : returning.after.UserMode child) : ReturnsTwice child creation returning := by
  have sequences : (checkedZeos machine).Reaches (record history) last.toSequences :=
    (run_toSequences reaches).2
  rw [whole, later] at sequences
  exact returnsTwice_of_reaches sequences creates away arrives

def threadStarts : List Event :=
  [.semInit 0 0, .clone 1048576 1081344, .semWait 0, .resume]

theorem forkReturnsTwice_clone :
    ∃ history last creation returning, (zeos Machine.sample).Reaches history last ∧
      creation ∈ record history ∧ creation.label = .clone 1048576 1081344 ∧
      ReturnsTwice 2 creation returning ∧
      (returning.after.context 2).eip = 1048576 ∧ (returning.after.context 2).esp = 1081344 := by
  have computed : (replay threadStarts ⟨Machine.sample.bootCore 0 1, bootLinks⟩).any (fun run =>
      passesAt 1 (fun creation since =>
        decide (creation.label = .clone 1048576 1081344) &&
        decide (¬creation.before.Live 2 ∧ creation.after.Live 2) &&
        ((since.take 1).all fun transition => decide (¬transition.after.UserMode 2)) &&
        passesAt 1 (fun returning _ => decide (returning.after.UserMode 2)) since)
          (record run.1)) = true := by
    decide +kernel
  rcases reaches_of_replay computed with ⟨history, last, reaches, found⟩
  rcases split_of_passesAt found with ⟨creation, since, whole, tested⟩
  simp only [Bool.and_eq_true, decide_eq_true_eq, List.all_eq_true] at tested
  rcases tested with ⟨⟨⟨label, creates⟩, away⟩, passes⟩
  rcases split_of_passesAt passes with ⟨returning, back, later, arrives⟩
  have member : creation ∈ record history := by
    rw [whole]
    exact List.mem_append_right _ List.mem_cons_self
  have twice := forkReturnsTwice reaches whole later creates away (of_decide_eq_true arrives)
  refine ⟨history, last, creation, returning, reaches, member, label, twice, ?_, ?_⟩
  · rw [twice.child, label]
    rfl
  · rw [twice.child, label]
    rfl

/-! ## Between two returns -/

theorem ContextStep.place {before after : SequenceKernel} {t : TaskId} (live : before.Live t)
    (step : ContextStep before after) :
    (after.context t).eip = (before.context t).eip ∧
      (after.context t).esp = (before.context t).esp ∧
      (¬after.UserMode t → after.context t = before.context t) := by
  cases step with
  | keeps same =>
      rw [same t live]
      exact ⟨rfl, rfl, fun _ => rfl⟩
  | returns eax here result others =>
      by_cases isCaller : t = before.core.current
      · subst isCaller
        rw [result]
        exact ⟨rfl, rfl, fun away => absurd here away⟩
      · rw [others t live isCaller]
        exact ⟨rfl, rfl, fun _ => rfl⟩

theorem place_of_run {machine : Machine} {first last : SequenceKernel} {history : List Recorded}
    {t : TaskId} (run : (checkedZeos machine).Run first history last)
    (disciplined : Disciplined first) (alive : ∀ transition ∈ history, transition.before.Live t) :
    (last.context t).eip = (first.context t).eip ∧ (last.context t).esp = (first.context t).esp ∧
      ((∀ transition ∈ history, ¬transition.after.UserMode t) →
        last.context t = first.context t) := by
  induction run with
  | nil => exact ⟨rfl, rfl, fun _ => rfl⟩
  | @snoc history middle label last earlier step induction =>
      have old : ∀ {transition}, transition ∈ history →
          transition ∈ history ++ [⟨middle, label, last⟩] := List.mem_append_left _
      have new : (⟨middle, label, last⟩ : Recorded) ∈ history ++ [⟨middle, label, last⟩] := by simp
      rcases induction fun transition member => alive transition (old member) with
        ⟨eip, esp, kept⟩
      rcases (step_contexts (disciplined_of_run earlier disciplined) step).place
        (alive _ new) with ⟨stepEip, stepEsp, stepKept⟩
      refine ⟨stepEip.trans eip, stepEsp.trans esp, fun away => ?_⟩
      rw [stepKept (away _ new)]
      exact kept fun transition member => away transition (old member)

/-- Whatever the other tasks do, a task that lives on keeps its place, and its whole context
until a call returns to it. -/
theorem contextsKept {machine : Machine} {history : List (Transition PointerKernel Event)}
    {last : PointerKernel} (reaches : (zeos machine).Reaches history last)
    {front since : List Recorded} {departure : Recorded} {t : TaskId}
    (whole : record history = front ++ departure :: since)
    (alive : ∀ transition ∈ departure :: since, transition.before.Live t) :
    (last.toSequences.context t).eip = (departure.before.context t).eip ∧
      (last.toSequences.context t).esp = (departure.before.context t).esp ∧
      ((∀ transition ∈ departure :: since, ¬transition.after.UserMode t) →
        last.toSequences.context t = departure.before.context t) := by
  have sequences : (checkedZeos machine).Reaches (record history) last.toSequences :=
    (run_toSequences reaches).2
  rw [whole] at sequences
  rcases sequences with ⟨first, start, run⟩
  rcases run.split with ⟨middle, earlier, later⟩
  have same : departure.before = middle := later.of_cons.1
  rw [same]
  exact place_of_run later (reachable_disciplined ⟨front, first, start, earlier⟩) alive

/-- The father still waits where it was when the thread runs. -/
theorem contextsKept_waiting :
    ∃ history last departure since, (zeos Machine.sample).Reaches history last ∧
      record history = departure :: since ∧ last.toSequences.core.current = 2 ∧
      (last.toSequences.context 1).eip = (departure.before.context 1).eip ∧
      (last.toSequences.context 1).esp = (departure.before.context 1).esp := by
  have computed : (replay threadStarts ⟨Machine.sample.bootCore 0 1, bootLinks⟩).any (fun run =>
      passesAt 0 (fun departure since =>
        (departure :: since).all fun transition => decide (transition.before.Live 1))
          (record run.1) && decide (run.2.toSequences.core.current = 2)) = true := by
    decide +kernel
  rcases reaches_of_replay computed with ⟨history, last, reaches, found⟩
  rw [Bool.and_eq_true, decide_eq_true_eq] at found
  rcases split_of_passesAt found.1 with ⟨departure, since, whole, tested⟩
  have alive : ∀ transition ∈ departure :: since, transition.before.Live 1 := fun transition old =>
    of_decide_eq_true (List.all_eq_true.mp tested transition old)
  have kept := contextsKept reaches whole alive
  exact ⟨history, last, departure, since, reaches, whole, found.2, kept.1, kept.2.1⟩

end Zeos
