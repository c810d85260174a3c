import Zeos.ListRefinement
import Zeos.System

/-! # The kernel over pointers refines the kernel over sequences

As long as the kernel over checked sequences does not misuse a list, the kernel
over pointers has the same outcome, up to the representation of the lists.
-/

namespace Zeos

open Foundation

/-- The variables of two kernels are the same, and the rings of one hold the sequences of the
other. -/
inductive Kernel.Represents : PointerKernel → SequenceKernel → Prop
  | intro (core : Core) {links : Links Queue TaskId} {sequences : Sequences Queue TaskId}
      (lists : links.Represents sequences.elements) :
      Kernel.Represents ⟨core, links⟩ ⟨core, sequences⟩

/-- Related kernels together with equal results. -/
inductive Kernel.Returns {α : Type} : PointerKernel × α → SequenceKernel × α → Prop
  | intro {pointer : PointerKernel} {sequence : SequenceKernel}
      (represents : pointer.Represents sequence) (result : α) :
      Kernel.Returns (pointer, result) (sequence, result)

def IsMisuse (failure : Fault) : Prop := failure = .list .misuse

abbrev Simulates {α β : Type} (Related : α → β → Prop) (pointer : Except Fault α)
    (sequence : Except Fault β) : Prop :=
  Refines IsMisuse Related pointer sequence

namespace Kernel

variable {pointer : PointerKernel} {sequence : SequenceKernel}

theorem Represents.core_eq (represents : pointer.Represents sequence) :
    pointer.core = sequence.core := by
  cases represents
  rfl

theorem Represents.lists (represents : pointer.Represents sequence) :
    pointer.queues.Represents sequence.queues.elements := by
  cases represents with
  | intro core lists => exact lists

theorem Represents.mapCore (represents : pointer.Represents sequence) (change : Core → Core) :
    (pointer.mapCore change).Represents (sequence.mapCore change) := by
  cases represents with
  | intro core lists => exact .intro _ lists

/-! ## List routines -/

theorem Represents.isEmpty (represents : pointer.Represents sequence) (queue : Queue) :
    pointer.isEmpty queue = sequence.isEmpty queue :=
  listEmpty_eq represents.lists queue

theorem misuse_refines {α β : Type} {Related : α → β → Prop} {result : Except Fault α} :
    Simulates Related result (.error (.list .misuse)) :=
  .undefined rfl

theorem Represents.first (represents : pointer.Represents sequence) (queue : Queue) :
    Simulates (· = ·) (pointer.first queue) (sequence.first queue) := by
  cases contents : sequence.queues.elements queue with
  | nil =>
      have refused : sequence.first queue = .error (.list .misuse) := by
        simp [Kernel.first, ListOps.first, contents]
      rw [refused]
      exact misuse_refines
  | cons first rest =>
      have found : sequence.first queue = .ok first := by
        simp [Kernel.first, ListOps.first, contents]
      have read := listFirst_eq represents.lists contents
      rw [found]
      exact ⟨first, by simp [Kernel.first, ListOps.first, read], rfl⟩

theorem Represents.initHead (represents : pointer.Represents sequence) (queue : Queue) :
    Simulates Represents (pointer.initHead queue) (sequence.initHead queue) := by
  cases represents with
  | intro core lists =>
      rename_i links sequences
      by_cases empty : sequences.elements queue = []
      · simp only [Kernel.initHead, liftList, ListOps.initHead, if_pos empty]
        exact .ok (.intro core (initListHead_represents lists empty))
      · simp only [Kernel.initHead, liftList, ListOps.initHead, if_neg empty]
        exact misuse_refines

theorem not_linked {sequences : Sequences Queue TaskId} {t : TaskId}
    (unlinked : ¬sequences.Linked t) (list : Queue) : t ∉ sequences.elements list :=
  fun member => unlinked ⟨list, member⟩

theorem Represents.add (represents : pointer.Represents sequence) (t : TaskId) (queue : Queue) :
    Simulates Represents (pointer.add t queue) (sequence.add t queue) := by
  cases represents with
  | intro core lists =>
      rename_i links sequences
      by_cases linked : sequences.Linked t
      · simp only [Kernel.add, liftList, ListOps.add, if_pos linked]
        exact misuse_refines
      · rcases listAdd_represents lists (not_linked linked) queue with ⟨result, added, holds⟩
        simp only [Kernel.add, liftList, ListOps.add, if_neg linked, added]
        exact .ok (.intro core holds)

theorem Represents.addTail (represents : pointer.Represents sequence) (t : TaskId)
    (queue : Queue) :
    Simulates Represents (pointer.addTail t queue) (sequence.addTail t queue) := by
  cases represents with
  | intro core lists =>
      rename_i links sequences
      by_cases linked : sequences.Linked t
      · simp only [Kernel.addTail, liftList, ListOps.addTail, if_pos linked]
        exact misuse_refines
      · rcases listAddTail_represents lists (not_linked linked) queue with
          ⟨result, added, holds⟩
        simp only [Kernel.addTail, liftList, ListOps.addTail, if_neg linked, added]
        exact .ok (.intro core holds)

theorem Represents.del (represents : pointer.Represents sequence) (t : TaskId) :
    Simulates Represents (pointer.del t) (sequence.del t) := by
  cases represents with
  | intro core lists =>
      rename_i links sequences
      by_cases linked : sequences.Linked t
      · rcases linked with ⟨queue, member⟩
        rcases listDel_represents lists member with ⟨result, removed, holds⟩
        have linked : sequences.Linked t := ⟨queue, member⟩
        simp only [Kernel.del, liftList, ListOps.del, if_pos linked, removed]
        exact .ok (.intro core holds)
      · simp only [Kernel.del, liftList, ListOps.del, if_neg linked]
        exact misuse_refines

/-! ## Scheduling -/

theorem Represents.updateProcessStateRr (represents : pointer.Represents sequence) (t : TaskId)
    (dst : Option Queue) :
    Simulates Represents (pointer.updateProcessStateRr t dst)
      (sequence.updateProcessStateRr t dst) := by
  unfold Kernel.updateProcessStateRr
  rw [represents.core_eq]
  dsimp only
  cases dst with
  | none =>
      split
      · exact (represents.del t).bind fun _ _ represents => .ok (represents.mapCore _)
      · exact .ok (represents.mapCore _)
  | some queue =>
      have place : ∀ pointer sequence, Kernel.Represents pointer sequence →
          Simulates Represents
            (pointer.addTail t queue >>= fun kernel =>
              pure (kernel.mapCore fun core => core.setState t (stateIn (some queue))))
            (sequence.addTail t queue >>= fun kernel =>
              pure (kernel.mapCore fun core => core.setState t (stateIn (some queue)))) := by
        intro pointer sequence represents
        exact (represents.addTail t queue).bind fun _ _ represents => .ok (represents.mapCore _)
      split
      · exact (represents.del t).bind place
      · exact place _ _ represents

theorem Represents.schedNextRr (represents : pointer.Represents sequence)
    (frames : List Frame) :
    Simulates Represents (pointer.schedNextRr frames) (sequence.schedNextRr frames) := by
  unfold Kernel.schedNextRr
  rw [represents.isEmpty]
  split
  · exact .ok (represents.mapCore _)
  · refine (represents.first _).bind fun next _ same => ?_
    subst same
    exact (represents.updateProcessStateRr next none).bind fun _ _ represents =>
      .ok (represents.mapCore _)

theorem Represents.withCore (represents : pointer.Represents sequence) (core : Core) :
    Represents { pointer with core := core } { sequence with core := core } :=
  represents.mapCore fun _ => core

theorem Represents.schedule (represents : pointer.Represents sequence) (frames : List Frame) :
    Simulates Represents (pointer.schedule frames) (sequence.schedule frames) := by
  unfold Kernel.schedule
  rw [represents.core_eq]
  generalize sequence.core.updateSchedDataRr.needsSchedRr = outcome
  rcases outcome with ⟨core, quantumOver⟩
  have represents := represents.withCore core
  dsimp only
  split
  · split
    · exact (represents.updateProcessStateRr _ _).bind fun _ _ represents =>
        represents.schedNextRr frames
    · exact represents.schedNextRr frames
  · exact .ok represents

/-! ## System calls -/

theorem Represents.currentTask (represents : pointer.Represents sequence) :
    pointer.currentTask = sequence.currentTask := by
  rw [Kernel.currentTask, Kernel.currentTask, represents.core_eq]

theorem same_refines {α : Type} (result : Except Fault α) : Simulates (· = ·) result result := by
  cases result with
  | error failure => exact .error failure
  | ok value => exact .ok rfl

theorem Represents.sysFork (represents : pointer.Represents sequence) :
    Simulates Returns pointer.sysFork sequence.sysFork := by
  unfold Kernel.sysFork
  rw [represents.isEmpty]
  split
  · exact .ok (.intro represents _)
  · refine (represents.first _).bind fun child _ same => ?_
    subst same
    refine (represents.del child).bind fun _ _ represents => ?_
    cases represents with
    | intro core lists =>
        dsimp only [Kernel.mapCore, Kernel.currentTask]
        generalize (core.copyUnion child).allocateDir child = core
        generalize core.mm.forkPages _ _ _ = outcome
        refine (same_refines outcome).bind fun outcome _ same => ?_
        subst same
        rcases outcome with ⟨mm, enough⟩
        cases enough with
        | false => exact .ok (.intro (.intro _ lists) _)
        | true =>
            refine (same_refines _).bind fun globalPID _ same => ?_
            subst same
            exact (Represents.addTail (.intro _ lists) child _).bind fun _ _ represents =>
              .ok (.intro represents _)

theorem Represents.sysClone (represents : pointer.Represents sequence) (function stack : Nat) :
    Simulates Returns (pointer.sysClone function stack) (sequence.sysClone function stack) := by
  unfold Kernel.sysClone
  rw [represents.isEmpty]
  split
  · exact .ok (.intro represents _)
  · split
    · exact .ok (.intro represents _)
    · split
      · exact .ok (.intro represents _)
      · refine (represents.first _).bind fun child _ same => ?_
        subst same
        refine (represents.del child).bind fun _ _ represents => ?_
        cases represents with
        | intro core lists =>
            dsimp only [Kernel.mapCore, Kernel.currentTask]
            refine (same_refines _).bind fun globalPID _ same => ?_
            subst same
            refine (Represents.addTail (.intro _ lists) child _).bind fun _ _ represents => ?_
            cases represents with
            | intro core lists => exact .ok (.intro (.intro _ lists) _)

theorem Represents.sysSemInit (represents : pointer.Represents sequence) (nSem : Int)
    (value : Nat) :
    Simulates Returns (pointer.sysSemInit nSem value) (sequence.sysSemInit nSem value) := by
  unfold Kernel.sysSemInit
  cases semIndex nSem with
  | none => exact .ok (.intro represents _)
  | some sem =>
      dsimp only
      rw [represents.core_eq]
      split
      · exact .ok (.intro represents _)
      · exact ((represents.mapCore _).initHead _).bind fun _ _ represents =>
          .ok (.intro (represents.mapCore _) _)

theorem Represents.sysSemWaitTail (represents : pointer.Represents sequence) :
    Returns pointer.sysSemWaitTail sequence.sysSemWaitTail := by
  unfold Kernel.sysSemWaitTail
  rw [represents.currentTask]
  split
  · exact .intro (represents.mapCore _) _
  · exact .intro represents _

theorem Represents.sysSemWait (represents : pointer.Represents sequence) (nSem : Int) :
    Simulates Returns (pointer.sysSemWait nSem) (sequence.sysSemWait nSem) := by
  unfold Kernel.sysSemWait
  cases semIndex nSem with
  | none => exact .ok (.intro represents _)
  | some sem =>
      cases represents with
      | intro core lists =>
          dsimp only [Kernel.mapCore]
          split
          · exact .ok (.intro (.intro core lists) _)
          · split
            · exact (Represents.addTail (.intro _ lists) _ _).bind fun _ _ represents =>
                (represents.schedNextRr _).bind fun _ _ represents => .ok (.intro represents _)
            · have tail := Represents.sysSemWaitTail (.intro
                (core.setCounter sem ((core.semArray sem).counter - 1)) lists)
              generalize Kernel.sysSemWaitTail (_ : PointerKernel) = outcome at tail ⊢
              generalize Kernel.sysSemWaitTail (_ : SequenceKernel) = abstract at tail ⊢
              cases tail with
              | intro represents result => exact .ok (.intro represents _)

theorem Represents.sysSemSignal (represents : pointer.Represents sequence) (nSem : Int) :
    Simulates Returns (pointer.sysSemSignal nSem) (sequence.sysSemSignal nSem) := by
  unfold Kernel.sysSemSignal
  cases semIndex nSem with
  | none => exact .ok (.intro represents _)
  | some sem =>
      dsimp only
      rw [represents.isEmpty, represents.core_eq]
      split
      · exact .ok (.intro represents _)
      · split
        · refine (same_refines _).bind fun counter _ same => ?_
          subst same
          exact .ok (.intro (represents.mapCore _) _)
        · refine (represents.first _).bind fun threadTask _ same => ?_
          subst same
          exact (represents.del _).bind fun _ _ represents =>
            ((represents.mapCore _).addTail _ _).bind fun _ _ represents =>
              .ok (.intro represents _)

theorem Represents.releaseWaiters (sem : SemId) (rounds : Nat)
    (represents : pointer.Represents sequence) :
    Simulates Represents (Kernel.releaseWaiters sem rounds pointer)
      (Kernel.releaseWaiters sem rounds sequence) := by
  induction rounds generalizing pointer sequence with
  | zero =>
      simp only [Kernel.releaseWaiters]
      rw [represents.isEmpty]
      split
      · exact .ok represents
      · exact .error _
  | succ rounds induction =>
      simp only [Kernel.releaseWaiters]
      rw [represents.isEmpty]
      split
      · exact .ok represents
      · refine (represents.first _).bind fun threadTask _ same => ?_
        subst same
        exact (represents.del _).bind fun _ _ represents =>
          ((represents.mapCore _).addTail _ _).bind fun _ _ represents => induction represents

theorem Represents.sysSemDestroy (represents : pointer.Represents sequence) (nSem : Int) :
    Simulates Returns (pointer.sysSemDestroy nSem) (sequence.sysSemDestroy nSem) := by
  unfold Kernel.sysSemDestroy
  cases semIndex nSem with
  | none => exact .ok (.intro represents _)
  | some sem =>
      dsimp only
      rw [represents.core_eq, represents.currentTask]
      split
      · exact .ok (.intro represents _)
      · split
        · exact .ok (.intro represents _)
        · exact (represents.releaseWaiters sem nrTasks).bind fun _ _ represents =>
            .ok (.intro (represents.mapCore _) _)

theorem Represents.destroyOwned (represents : pointer.Represents sequence) (i : Nat) :
    Simulates Represents (Kernel.destroyOwned i pointer) (Kernel.destroyOwned i sequence) := by
  unfold Kernel.destroyOwned
  cases semIndex i with
  | none => exact .ok represents
  | some sem =>
      dsimp only
      rw [represents.core_eq, represents.currentTask]
      split
      · refine (represents.sysSemDestroy i).bind fun _ _ returns => ?_
        cases returns with
        | intro represents result => exact .ok represents
      · exact .ok represents

theorem Represents.sysExit (represents : pointer.Represents sequence) :
    Simulates Represents pointer.sysExit sequence.sysExit := by
  unfold Kernel.sysExit
  refine (Refines.countedLoop (fun index _ _ represents => represents.destroyOwned index) 0
    nrSemaphores represents).bind fun _ _ represents => ?_
  cases represents with
  | intro core lists =>
      dsimp only [Kernel.mapCore, Kernel.currentTask]
      refine (same_refines _).bind fun mm _ same => ?_
      subst same
      exact (Represents.addTail (.intro _ lists) _ _).bind fun _ _ represents =>
        represents.schedNextRr _

theorem Represents.popInto (represents : pointer.Represents sequence) (address : Nat) :
    Simulates Represents (pointer.popInto address) (sequence.popInto address) := by
  unfold Kernel.popInto
  rw [represents.core_eq, represents.currentTask]
  refine (same_refines _).bind fun mm _ same => ?_
  subst same
  exact .ok (represents.mapCore _)

theorem Represents.readLoop (represents : pointer.Represents sequence) (buffer : Nat)
    (count i : Int) :
    Simulates Returns (Kernel.readLoop buffer count i pointer)
      (Kernel.readLoop buffer count i sequence) := by
  generalize measure : (count - i).toNat = rounds
  induction rounds using Nat.strongRecOn generalizing i pointer sequence with
  | ind rounds induction =>
      rw [Kernel.readLoop, Kernel.readLoop]
      split
      · rw [represents.core_eq]
        split
        · cases represents with
          | intro core lists =>
              exact (Represents.add (.intro _ lists) _ _).bind fun _ _ represents =>
                (represents.schedNextRr _).bind fun _ _ represents => .ok (.intro represents _)
        · exact (represents.popInto _).bind fun _ _ represents =>
            induction (count - (i + 1)).toNat (by omega) represents (i + 1) rfl
      · exact .ok (.intro represents _)

theorem Represents.sysReadKeyboard (represents : pointer.Represents sequence) (buffer : Nat)
    (count i : Int) :
    Simulates Returns (pointer.sysReadKeyboard buffer count i)
      (sequence.sysReadKeyboard buffer count i) := by
  unfold Kernel.sysReadKeyboard
  have represents := represents.mapCore fun core =>
    { core with
      keyboardReadersCount := Function.update core.keyboardReadersCount core.current count }
  dsimp only
  rw [represents.isEmpty]
  split
  · exact represents.readLoop buffer count i
  · rw [represents.core_eq]
    exact (represents.updateProcessStateRr _ _).bind fun _ _ represents =>
      (represents.schedNextRr _).bind fun _ _ represents => .ok (.intro represents _)

theorem Represents.sysRead (represents : pointer.Represents sequence) (fd : Int) (buffer : Nat)
    (count i : Int) :
    Simulates Returns (pointer.sysRead fd buffer count i) (sequence.sysRead fd buffer count i) := by
  unfold Kernel.sysRead
  repeat' split
  all_goals first
    | exact .ok (.intro represents _)
    | exact represents.sysReadKeyboard buffer count i

theorem Represents.sysSbrk (represents : pointer.Represents sequence) (amount : Int) :
    Simulates Returns (pointer.sysSbrk amount) (sequence.sysSbrk amount) := by
  unfold Kernel.sysSbrk
  dsimp only
  rw [represents.core_eq, represents.currentTask]
  refine (same_refines _).bind fun outcome _ same => ?_
  subst same
  rcases outcome with ⟨mm, last⟩
  cases last with
  | none => exact .ok (.intro (represents.mapCore _) _)
  | some last => exact .ok (.intro (represents.mapCore _) _)

theorem Represents.sysWrite (represents : pointer.Represents sequence) (fd : Int)
    (buffer : Nat) (size : Int) :
    pointer.sysWrite fd buffer size = sequence.sysWrite fd buffer size := by
  unfold Kernel.sysWrite
  rw [represents.core_eq, represents.currentTask]

theorem Represents.sysGetStats (represents : pointer.Represents sequence) (pid : Int)
    (st : Nat) : Simulates Returns (pointer.sysGetStats pid st) (sequence.sysGetStats pid st) := by
  unfold Kernel.sysGetStats
  rw [represents.core_eq]
  split
  · exact .ok (.intro represents _)
  · split
    · exact .ok (.intro represents _)
    · split
      · exact .ok (.intro represents _)
      · dsimp only
        rename_i t _
        have counted := represents.mapCore fun core => core.setRemaining t
        rw [counted.core_eq, counted.currentTask]
        refine (same_refines _).bind fun mm _ same => ?_
        subst same
        exact .ok (.intro (counted.mapCore _) _)

/-! ## Interrupts and resumption -/

theorem Represents.deliverKey (represents : pointer.Represents sequence) (result : UInt8) :
    Simulates Represents (pointer.deliverKey result) (sequence.deliverKey result) := by
  unfold Kernel.deliverKey
  have represents := represents.mapCore fun core =>
    { core with circbuff := core.circbuff.push result }
  refine (represents.first _).bind fun reader _ same => ?_
  subst same
  dsimp only
  rw [represents.core_eq]
  split
  · refine ((represents.mapCore _).del _).bind fun _ _ represents => ?_
    refine ((represents.mapCore _).add _ _).bind fun _ _ represents => ?_
    rw [represents.core_eq]
    exact (represents.updateProcessStateRr _ _).bind fun _ _ represents =>
      represents.schedNextRr _
  · exact .ok represents

theorem Represents.leaveUnlessSwitched (represents : pointer.Represents sequence) :
    Represents pointer.leaveUnlessSwitched sequence.leaveUnlessSwitched := by
  unfold Kernel.leaveUnlessSwitched
  rw [represents.core_eq]
  split
  · exact represents
  · exact represents.mapCore _

theorem Represents.keyboardRoutine (represents : pointer.Represents sequence) (llegit : UInt8) :
    Simulates Represents (pointer.keyboardRoutine llegit) (sequence.keyboardRoutine llegit) := by
  unfold Kernel.keyboardRoutine
  have represents := represents.mapCore Core.enterSystem
  dsimp only
  rw [represents.core_eq, represents.isEmpty]
  split
  · exact .ok represents.leaveUnlessSwitched
  · exact (represents.deliverKey _).bind fun _ _ represents => .ok represents.leaveUnlessSwitched

theorem Represents.clkRoutine (represents : pointer.Represents sequence) :
    Simulates Represents pointer.clkRoutine sequence.clkRoutine := by
  unfold Kernel.clkRoutine
  exact ((represents.mapCore _).schedule _).bind fun _ _ represents =>
    .ok represents.leaveUnlessSwitched

theorem Returns.finishCall {outcome : PointerKernel × Option Int}
    {abstract : SequenceKernel × Option Int} (returns : Returns outcome abstract) :
    Represents (Kernel.finishCall outcome) (Kernel.finishCall abstract) := by
  cases returns with
  | intro represents result =>
      simp only [Kernel.finishCall]
      cases result with
      | none => exact represents
      | some value => exact represents.mapCore _

theorem Represents.resumeFrames (frames : List Frame) (represents : pointer.Represents sequence) :
    Simulates Represents (Kernel.resumeFrames frames pointer)
      (Kernel.resumeFrames frames sequence) := by
  induction frames generalizing pointer sequence with
  | nil => exact .ok represents
  | cons frame frames induction =>
      cases frame with
      | schedNextRr => exact induction (represents.mapCore _)
      | cpuIdle => exact .ok represents
      | retFromFork => exact .ok (Returns.finishCall (.intro represents _))
      | sysSemWait =>
          have tail := represents.sysSemWaitTail
          simp only [Kernel.resumeFrames]
          generalize pointer.sysSemWaitTail = outcome at tail ⊢
          generalize sequence.sysSemWaitTail = abstract at tail ⊢
          cases tail with
          | intro represents result => exact .ok (Returns.finishCall (.intro represents _))
      | sysReadQueued => exact .ok (Returns.finishCall (.intro represents _))
      | sysReadLoop buffer count i =>
          exact (represents.readLoop buffer count i).bind fun _ _ returns => .ok returns.finishCall
      | sysExit => exact .ok (Returns.finishCall (.intro represents _))
      | keyboardRoutine => exact .ok (represents.mapCore _)
      | clkRoutine => exact .ok (represents.mapCore _)

theorem Represents.resume (represents : pointer.Represents sequence) :
    Simulates Represents pointer.resume sequence.resume := by
  unfold Kernel.resume
  have represents := represents.mapCore fun core => { core with inKernel := false }
  dsimp only
  rw [represents.currentTask]
  exact represents.resumeFrames _

/-! ## Steps -/

theorem Represents.systemCall (represents : pointer.Represents sequence)
    {body : PointerKernel → Except Fault (PointerKernel × Option Int)}
    {abstractBody : SequenceKernel → Except Fault (SequenceKernel × Option Int)}
    (bodies : ∀ pointer sequence, Represents pointer sequence →
      Simulates Returns (body pointer) (abstractBody sequence)) :
    Simulates Represents (pointer.systemCall body) (sequence.systemCall abstractBody) := by
  unfold Kernel.systemCall
  exact (bodies _ _ (represents.mapCore _)).bind fun _ _ returns => .ok returns.finishCall

theorem returning_refines
    {body : PointerKernel → Except Fault (PointerKernel × Int)}
    {abstractBody : SequenceKernel → Except Fault (SequenceKernel × Int)}
    (bodies : ∀ pointer sequence, Represents pointer sequence →
      Simulates Returns (body pointer) (abstractBody sequence))
    (pointer : PointerKernel) (sequence : SequenceKernel)
    (represents : Represents pointer sequence) :
    Simulates Returns (returning body pointer) (returning abstractBody sequence) := by
  unfold Kernel.returning
  refine (bodies _ _ represents).bind fun _ _ returns => ?_
  cases returns with
  | intro represents result => exact .ok (.intro represents _)

theorem Represents.execute (represents : pointer.Represents sequence) (event : Event) :
    Simulates Represents (pointer.execute event) (sequence.execute event) := by
  cases event with
  | resume => exact represents.resume
  | clock => exact represents.clkRoutine
  | keyboard llegit => exact represents.keyboardRoutine llegit
  | getpid =>
      refine represents.systemCall (returning_refines fun pointer sequence represents => ?_)
      rw [represents.currentTask]
      exact .ok (.intro represents _)
  | gettime =>
      refine represents.systemCall (returning_refines fun pointer sequence represents => ?_)
      rw [represents.core_eq]
      exact .ok (.intro represents _)
  | fork => exact represents.systemCall (returning_refines fun _ _ represents => represents.sysFork)
  | clone function stack =>
      exact represents.systemCall (returning_refines fun _ _ represents =>
        represents.sysClone function stack)
  | exit =>
      exact represents.systemCall fun _ _ represents =>
        represents.sysExit.bind fun _ _ represents => .ok (.intro represents _)
  | sbrk amount =>
      exact represents.systemCall (returning_refines fun _ _ represents =>
        represents.sysSbrk amount)
  | semInit nSem value =>
      exact represents.systemCall (returning_refines fun _ _ represents =>
        represents.sysSemInit nSem value)
  | semWait nSem => exact represents.systemCall fun _ _ represents => represents.sysSemWait nSem
  | semSignal nSem =>
      exact represents.systemCall (returning_refines fun _ _ represents =>
        represents.sysSemSignal nSem)
  | semDestroy nSem =>
      exact represents.systemCall (returning_refines fun _ _ represents =>
        represents.sysSemDestroy nSem)
  | read fd buffer count i =>
      exact represents.systemCall fun _ _ represents => represents.sysRead fd buffer count i
  | write fd buffer size =>
      refine represents.systemCall (returning_refines fun pointer sequence represents => ?_)
      rw [represents.sysWrite]
      refine (same_refines _).bind fun outcome _ same => ?_
      subst same
      exact .ok (.intro represents _)
  | getStats pid st =>
      exact represents.systemCall (returning_refines fun _ _ represents =>
        represents.sysGetStats pid st)
  | niSyscall =>
      exact represents.systemCall (returning_refines fun _ _ represents =>
        .ok (.intro represents _))

end Kernel

end Zeos
