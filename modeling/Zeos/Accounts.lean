import Zeos.Scheduling

/-! # Accounts

What the routines write to the statistics of tasks. Everything but the clock, the
processor, the stacks and the statistics is left out, so that a routine becomes an
operation on books.
-/

namespace Zeos

open Foundation Kernel

/-- The statistics without the remaining ticks, which `sys_get_stats` sets. -/
def Stats.settled (stats : Stats) : Stats := { stats with remainingTicks := 0 }

@[ext] structure Books where
  clock : Nat → Nat
  readings : Nat
  idleTask : TaskId
  current : TaskId
  inKernel : Bool
  account : TaskId → Stats
  stack : TaskId → List Frame

def Core.books (core : Core) : Books where
  clock := core.clock
  readings := core.readings
  idleTask := core.idleTask
  current := core.current
  inKernel := core.inKernel
  account t := (core.task t).pStats.settled
  stack t := (core.task t).kernelEsp

/-- The writes: the time since the mark goes to one of the counters, or a transition
is counted. -/
inductive Posting
  | user
  | system
  | ready
  | count
  deriving DecidableEq

def Posting.credit : Posting → Stats → Nat → Stats
  | .user, stats, spent => { stats with userTicks := Core.wrap (stats.userTicks + spent) }
  | .system, stats, spent => { stats with systemTicks := Core.wrap (stats.systemTicks + spent) }
  | .ready, stats, spent => { stats with readyTicks := Core.wrap (stats.readyTicks + spent) }
  | .count, stats, _ => stats

namespace Books

def getTicks (books : Books) (later : Nat) : Nat :=
  Core.wrap (books.clock (books.readings + later))

def charged (books : Books) (posting : Posting) (stats : Stats) : Stats :=
  { posting.credit stats (toUnsigned (books.getTicks 0 - stats.elapsedTotalTicks)) with
    elapsedTotalTicks := books.getTicks 1 }

def modify (books : Books) (change : Stats → Stats) : Books :=
  { books with
    account := fun t =>
      if t = books.current then change (books.account t) else books.account t }

def post (books : Books) : Posting → Books
  | .count => books.modify fun stats =>
      { stats with totalTrans := Core.wrap (stats.totalTrans + 1) }
  | posting => { books.modify (books.charged posting) with readings := books.readings + 2 }

def enter (books : Books) : Books := { books with inKernel := false }

def posts (books : Books) (postings : List Posting) : Books := postings.foldl post books

def switchTo (books : Books) (next : TaskId) (frames : List Frame) : Books :=
  { books with
    current := next
    inKernel := true
    stack := fun t => if t = books.current then frames else books.stack t }

def leave (books : Books) : Books := { books.post .system with inKernel := false }

def opened (books : Books) (child : TaskId) (stats : Stats) (frames : List Frame) : Books :=
  { books with
    account := fun t => if t = child then stats else books.account t
    stack := fun t => if t = child then frames else books.stack t }

end Books

/-! ## Operations on the variables -/

namespace Core

variable (core : Core)

theorem charge_books (posting : Posting) (notCount : posting ≠ .count) :
    (core.charge posting.credit).books = core.books.post posting := by
  cases posting with
  | count => exact absurd rfl notCount
  | user | system | ready =>
      ext t
      all_goals first
        | rfl
        | (by_cases same : t = core.current <;>
            simp [books, Books.post, Books.modify, Books.charged, Books.getTicks, chargeStats,
              getTicks, Posting.credit, Stats.settled, same])

@[simp] theorem enterSystem_books : core.enterSystem.books = core.books.post .user :=
  core.charge_books .user Posting.noConfusion

@[simp] theorem chargeSystem_books : core.chargeSystem.books = core.books.post .system :=
  core.charge_books .system Posting.noConfusion

@[simp] theorem chargeReady_books : core.chargeReady.books = core.books.post .ready :=
  core.charge_books .ready Posting.noConfusion

@[simp] theorem countTransition_books : core.countTransition.books = core.books.post .count := by
  ext t
  all_goals first
    | rfl
    | (by_cases same : t = core.current <;>
        simp [books, Books.post, Books.modify, Stats.settled, same])

@[simp] theorem leaveKernel_books : core.leaveKernel.books = core.books.leave := by
  rw [Books.leave, ← chargeSystem_books]
  rfl

@[simp] theorem taskSwitch_books (next : TaskId) (frames : List Frame) :
    (core.taskSwitch next frames).books = core.books.switchTo next frames := by
  apply Books.ext
  all_goals first
    | rfl
    | (funext t
       by_cases same : t = core.current <;> simp [books, Books.switchTo, same])

theorem modifyTask_books {t : TaskId} {change : TaskUnion → TaskUnion}
    (stats : (change (core.task t)).pStats.settled = (core.task t).pStats.settled)
    (stack : (change (core.task t)).kernelEsp = (core.task t).kernelEsp) :
    (core.modifyTask t change).books = core.books := by
  ext other
  all_goals first
    | rfl
    | (by_cases same : other = t <;> simp [books, same, stats, stack])

@[simp] theorem setState_books (t : TaskId) (state : ProcessState) :
    (core.setState t state).books = core.books := core.modifyTask_books rfl rfl

@[simp] theorem setEax_books (t : TaskId) (value : Int) :
    (core.setEax t value).books = core.books :=
  core.modifyTask_books rfl rfl

@[simp] theorem setSemdestroyed_books (t : TaskId) (value : Bool) :
    (core.setSemdestroyed t value).books = core.books := core.modifyTask_books rfl rfl

@[simp] theorem setRemaining_books (t : TaskId) : (core.setRemaining t).books = core.books :=
  core.modifyTask_books rfl rfl

@[simp] theorem copyUnion_books (child : TaskId) :
    (core.copyUnion child).books =
      core.books.opened child (core.books.account core.current)
        (core.books.stack core.current) := by
  ext t
  all_goals first
    | rfl
    | (by_cases same : t = child <;> simp [books, Books.opened, same])

@[simp] theorem allocateDir_books (t : TaskId) : (core.allocateDir t).books = core.books := by
  unfold allocateDir
  split
  · exact modifyTask_books _ rfl rfl
  · rfl

@[simp] theorem adopt_books (child : TaskId) (globalPID : Int) :
    (core.adopt child globalPID).books = core.books.opened child .zero [.retFromFork] := by
  ext t
  all_goals first
    | rfl
    | (by_cases same : t = child <;> simp [books, Books.opened, same, Stats.settled, Stats.zero])

end Core

theorem Books.opened_again (books : Books) (child : TaskId) (stats again : Stats)
    (frames later : List Frame) :
    (books.opened child stats frames).opened child again later =
      books.opened child again later := by
  ext t
  all_goals first
    | rfl
    | (by_cases same : t = child <;> simp [Books.opened, same])

/-! ## The routines -/

section Routines

variable {σ : Type} [ListOps σ Queue TaskId] {kernel after : Kernel σ}

omit [ListOps σ Queue TaskId] in
theorem liftList_core {result : Except ListFault σ} (done : kernel.liftList result = .ok after) :
    after.core = kernel.core := by
  unfold liftList at done
  split at done <;> cases done
  rfl

theorem updateProcessStateRr_books {t : TaskId} {dst : Option Queue}
    (updated : kernel.updateProcessStateRr t dst = .ok after) :
    after.core.books = kernel.core.books := by
  unfold updateProcessStateRr at updated
  dsimp only at updated
  cases dst with
  | none =>
      split at updated
      · rcases bind_eq_ok.mp updated with ⟨unlinked, deleted, finished⟩
        cases finished
        simp [mapCore, liftList_core deleted]
      · cases updated
        simp [mapCore]
  | some queue =>
      have linked : ∀ {unlinked : Kernel σ}, unlinked.core = kernel.core →
          (unlinked.addTail t queue >>= fun kernel =>
            pure (kernel.mapCore fun core => core.setState t (stateIn (some queue)))) = .ok after →
          after.core.books = kernel.core.books := by
        intro unlinked same linked
        rcases bind_eq_ok.mp linked with ⟨middle, added, finished⟩
        cases finished
        simp [mapCore, liftList_core added, same]
      split at updated
      · rcases bind_eq_ok.mp updated with ⟨unlinked, deleted, rest⟩
        exact linked (liftList_core deleted) rest
      · exact linked rfl updated

inductive Yields (books : Books) (frames : List Frame) : Books → Prop
  | toNext (next : TaskId) :
      Yields books frames ((books.post .system).switchTo next (.schedNextRr :: frames))
  | toIdle : Yields books frames (books.switchTo books.idleTask frames)

theorem schedNextRr_books {frames : List Frame} (switched : kernel.schedNextRr frames = .ok after) :
    Yields kernel.core.books frames after.core.books := by
  unfold schedNextRr at switched
  split at switched
  · cases switched
    rw [mapCore, Core.taskSwitch_books]
    exact .toIdle
  · rcases bind_eq_ok.mp switched with ⟨next, -, rest⟩
    rcases bind_eq_ok.mp rest with ⟨taken, updated, same⟩
    cases same
    have books := updateProcessStateRr_books updated
    have charged : ({ taken.core.chargeSystem with
        leftTicks := (taken.core.chargeSystem.task next).quantum } : Core).books =
          kernel.core.books.post .system := by
      rw [← books]
      exact taken.core.chargeSystem_books
    simp only [mapCore, Core.taskSwitch_books, charged]
    exact .toNext next

/-- What fork and clone do to the books: a free task gets an account, which is new
unless the call runs out of frames. -/
inductive Opens (kernel after : Kernel σ) : Prop
  | refused (same : after = kernel)
  | outOfFrames (child : TaskId) (first : kernel.first .freequeue = .ok child)
      (state : (after.core.task child).state = kernel.currentTask.state)
      (copied : after.core.books = kernel.core.books.opened child
        (kernel.core.books.account kernel.core.current)
        (kernel.core.books.stack kernel.core.current))
  | opens (child : TaskId) (first : kernel.first .freequeue = .ok child)
      (opened : after.core.books = kernel.core.books.opened child .zero [.retFromFork])

theorem sysFork_books {result : Int} (forked : kernel.sysFork = .ok (after, result)) :
    Opens kernel after := by
  unfold sysFork at forked
  split at forked
  · cases forked
    exact .refused rfl
  · rcases bind_eq_ok.mp forked with ⟨child, first, rest⟩
    rcases bind_eq_ok.mp rest with ⟨unlinked, deleted, rest⟩
    have same := liftList_core deleted
    rcases bind_eq_ok.mp rest with ⟨⟨mm, complete⟩, pages, rest⟩
    cases complete with
    | false =>
        cases rest
        apply Opens.outOfFrames child first
        · simp [mapCore, same, currentTask]
        · change ((unlinked.core.copyUnion child).allocateDir child).books = _
          rw [Core.allocateDir_books, Core.copyUnion_books, same]
    | true =>
        rcases bind_eq_ok.mp rest with ⟨globalPID, -, rest⟩
        rcases bind_eq_ok.mp rest with ⟨linked, added, final⟩
        cases final
        apply Opens.opens child first
        rw [liftList_core added]
        change ((({ (unlinked.core.copyUnion child).allocateDir child with mm := mm } : Core).adopt
          child globalPID)).books = _
        rw [Core.adopt_books]
        change Books.opened ((unlinked.core.copyUnion child).allocateDir child).books _ _ _ = _
        rw [Core.allocateDir_books, Core.copyUnion_books, Books.opened_again, same]

theorem sysClone_books {function stack : Nat} {result : Int}
    (cloned : kernel.sysClone function stack = .ok (after, result)) : Opens kernel after := by
  unfold sysClone at cloned
  split at cloned
  · cases cloned
    exact .refused rfl
  · split at cloned
    · cases cloned
      exact .refused rfl
    · split at cloned
      · cases cloned
        exact .refused rfl
      · rcases bind_eq_ok.mp cloned with ⟨child, first, rest⟩
        rcases bind_eq_ok.mp rest with ⟨unlinked, deleted, rest⟩
        have same := liftList_core deleted
        rcases bind_eq_ok.mp rest with ⟨globalPID, -, rest⟩
        rcases bind_eq_ok.mp rest with ⟨linked, added, final⟩
        cases final
        apply Opens.opens child first
        have kept : (linked.mapCore fun core => core.modifyTask child fun union =>
            { union with context :=
              { union.context with eip := function, esp := stack } }).core.books =
              linked.core.books := Core.modifyTask_books _ rfl rfl
        rw [kept, liftList_core added]
        change (Core.adopt { unlinked.core.copyUnion child with
          mm := (unlinked.core.copyUnion child).mm.retainDir _ } child globalPID).books = _
        rw [Core.adopt_books]
        change Books.opened (unlinked.core.copyUnion child).books _ _ _ = _
        rw [Core.copyUnion_books, Books.opened_again, same]

/-! ### Calls that open no account -/

def Bare (frames : List Frame) : Prop :=
  (∀ rest, frames ≠ .schedNextRr :: rest) ∧ frames ≠ [.retFromFork]

/-- A call that returns leaves the books alone; otherwise it gave up the processor. -/
inductive Keeps (books : Books) : Kernel σ × Option Int → Prop
  | returns {after : Kernel σ} (result : Int) (same : after.core.books = books) :
      Keeps books (after, some result)
  | yields {after : Kernel σ} (frames : List Frame)
      (bare : Bare frames) (yields : Yields books frames after.core.books) :
      Keeps books (after, none)

theorem sysSemInit_books {nSem result : Int} {value : Nat}
    (done : kernel.sysSemInit nSem value = .ok (after, result)) :
    after.core.books = kernel.core.books := by
  unfold sysSemInit at done
  split at done
  · cases done
    rfl
  · split at done
    · cases done
      rfl
    · rcases bind_eq_ok.mp done with ⟨headed, initialised, final⟩
      cases final
      change headed.core.books = _
      rw [liftList_core initialised]
      rfl

omit [ListOps σ Queue TaskId] in
theorem sysSemWaitTail_books : (kernel.sysSemWaitTail).1.core.books = kernel.core.books := by
  unfold sysSemWaitTail
  split
  · exact Core.setSemdestroyed_books _ _ _
  · rfl

theorem sysSemWait_books {nSem : Int} {outcome : Kernel σ × Option Int}
    (done : kernel.sysSemWait nSem = .ok outcome) : Keeps kernel.core.books outcome := by
  unfold sysSemWait at done
  split at done
  · cases done
    exact .returns _ rfl
  · split at done
    · cases done
      exact .returns _ rfl
    · split at done
      · rcases bind_eq_ok.mp done with ⟨linked, added, rest⟩
        rcases bind_eq_ok.mp rest with ⟨switched, dispatched, final⟩
        cases final
        apply Keeps.yields [.sysSemWait] (by simp [Bare])
        have yields := schedNextRr_books dispatched
        rw [liftList_core added] at yields
        simpa [mapCore] using yields
      · cases done
        exact .returns _ sysSemWaitTail_books

theorem sysSemSignal_books {nSem result : Int}
    (done : kernel.sysSemSignal nSem = .ok (after, result)) :
    after.core.books = kernel.core.books := by
  unfold sysSemSignal at done
  split at done
  · cases done
    rfl
  · split at done
    · cases done
      rfl
    · split at done
      · rcases bind_eq_ok.mp done with ⟨counter, -, final⟩
        cases final
        rfl
      · rcases bind_eq_ok.mp done with ⟨waiter, -, rest⟩
        rcases bind_eq_ok.mp rest with ⟨unlinked, deleted, rest⟩
        rcases bind_eq_ok.mp rest with ⟨linked, added, final⟩
        cases final
        rw [liftList_core added]
        simp [mapCore, liftList_core deleted]

theorem releaseWaiters_books {sem : SemId} (rounds : Nat)
    (done : releaseWaiters sem rounds kernel = .ok after) :
    after.core.books = kernel.core.books := by
  induction rounds generalizing kernel with
  | zero =>
      unfold releaseWaiters at done
      split at done <;> cases done
      rfl
  | succ rounds induction =>
      unfold releaseWaiters at done
      split at done
      · cases done
        rfl
      · rcases bind_eq_ok.mp done with ⟨waiter, -, rest⟩
        rcases bind_eq_ok.mp rest with ⟨unlinked, deleted, rest⟩
        rcases bind_eq_ok.mp rest with ⟨linked, added, later⟩
        rw [induction later, liftList_core added]
        simp [mapCore, liftList_core deleted]

theorem sysSemDestroy_books {nSem result : Int}
    (done : kernel.sysSemDestroy nSem = .ok (after, result)) :
    after.core.books = kernel.core.books := by
  unfold sysSemDestroy at done
  split at done
  · cases done
    rfl
  · split at done
    · cases done
      rfl
    · split at done
      · cases done
        rfl
      · rcases bind_eq_ok.mp done with ⟨released, waiters, final⟩
        cases final
        exact (rfl : _ = released.core.books).trans (releaseWaiters_books _ waiters)

theorem destroyOwned_books {i : Nat} (done : destroyOwned i kernel = .ok after) :
    after.core.books = kernel.core.books := by
  unfold destroyOwned at done
  split at done
  · cases done
    rfl
  · split at done
    · rcases bind_eq_ok.mp done with ⟨destroyed, called, final⟩
      cases final
      exact sysSemDestroy_books called
    · cases done
      rfl

theorem sysExit_books (exited : kernel.sysExit = .ok after) :
    Yields kernel.core.books [.sysExit] after.core.books := by
  unfold sysExit at exited
  rcases bind_eq_ok.mp exited with ⟨released, destroyed, rest⟩
  have first := countedLoop_invariant (fun _ current => current.core.books = kernel.core.books)
    destroyed rfl fun i current next _ _ same once => (destroyOwned_books once).trans same
  rcases bind_eq_ok.mp rest with ⟨mm, -, rest⟩
  rcases bind_eq_ok.mp rest with ⟨linked, added, dispatched⟩
  have yields := schedNextRr_books dispatched
  rw [liftList_core added] at yields
  have quiet : (Core.modifyTask { released.core with mm := mm } released.core.current fun union =>
      { union with pid := -1 }).books = released.core.books := Core.modifyTask_books _ rfl rfl
  rw [← first, ← quiet]
  exact yields

omit [ListOps σ Queue TaskId] in
theorem popInto_books {address : Nat} (popped : kernel.popInto address = .ok after) :
    after.core.books = kernel.core.books := by
  unfold popInto at popped
  rcases bind_eq_ok.mp popped with ⟨mm, -, final⟩
  cases final
  rfl

theorem readLoop_books {buffer : Nat} {count i : Int} {outcome : Kernel σ × Option Int}
    (done : readLoop buffer count i kernel = .ok outcome) : Keeps kernel.core.books outcome := by
  generalize measure : (count - i).toNat = rounds
  induction rounds using Nat.strongRecOn generalizing i kernel with
  | ind rounds induction =>
      rw [readLoop] at done
      split at done
      · split at done
        · rcases bind_eq_ok.mp done with ⟨linked, added, rest⟩
          rcases bind_eq_ok.mp rest with ⟨switched, dispatched, final⟩
          cases final
          apply Keeps.yields [.sysReadLoop buffer count i] (by simp [Bare])
          have yields := schedNextRr_books dispatched
          rw [liftList_core added] at yields
          simpa [mapCore] using yields
        · rcases bind_eq_ok.mp done with ⟨popped, taken, rest⟩
          rw [← popInto_books taken]
          exact induction (count - (i + 1)).toNat (by omega) rest rfl
      · cases done
        exact .returns _ rfl

theorem sysRead_books {fd : Int} {buffer : Nat} {count i : Int} {outcome : Kernel σ × Option Int}
    (done : kernel.sysRead fd buffer count i = .ok outcome) : Keeps kernel.core.books outcome := by
  unfold sysRead at done
  split at done
  · cases done
    exact .returns _ rfl
  · split at done
    · cases done
      exact .returns _ rfl
    · split at done
      · cases done
        exact .returns _ rfl
      · split at done
        · cases done
          exact .returns _ rfl
        · unfold sysReadKeyboard at done
          dsimp only at done
          split at done
          · have loops := readLoop_books done
            exact loops
          · rcases bind_eq_ok.mp done with ⟨queued, updated, rest⟩
            rcases bind_eq_ok.mp rest with ⟨switched, dispatched, final⟩
            cases final
            apply Keeps.yields [.sysReadQueued] (by simp [Bare])
            have yields := schedNextRr_books dispatched
            rw [updateProcessStateRr_books updated] at yields
            exact yields

omit [ListOps σ Queue TaskId] in
theorem sysGetStats_books {pid result : Int} {st : Nat}
    (done : kernel.sysGetStats pid st = .ok (after, result)) :
    after.core.books = kernel.core.books := by
  unfold sysGetStats at done
  split at done
  · cases done
    rfl
  · split at done
    · cases done
      rfl
    · split at done
      · cases done
        rfl
      · rename_i t _
        rcases bind_eq_ok.mp done with ⟨mm, -, final⟩
        cases final
        exact kernel.core.setRemaining_books t

omit [ListOps σ Queue TaskId] in
theorem sysSbrk_books {amount result : Int} (done : kernel.sysSbrk amount = .ok (after, result)) :
    after.core.books = kernel.core.books := by
  unfold sysSbrk at done
  rcases bind_eq_ok.mp done with ⟨⟨mm, last⟩, -, final⟩
  cases last <;> cases final <;> rfl

/-! ### Interrupts -/

/-- An interrupt or a resumption ends in user mode, or gives up the processor. -/
inductive Closes (books : Books) : Books → Prop
  | leaves : Closes books books.leave
  | yields {frames : List Frame} {after : Books} (bare : Bare frames)
      (yields : Yields books frames after) : Closes books after

theorem Yields.inKernel {books after : Books} {frames : List Frame}
    (yields : Yields books frames after) : after.inKernel = true := by
  cases yields <;> rfl

omit [ListOps σ Queue TaskId] in
theorem leaveUnlessSwitched_stays (inUserMode : kernel.core.inKernel = false) :
    kernel.leaveUnlessSwitched.core.books = kernel.core.books.leave := by
  rw [leaveUnlessSwitched, inUserMode]
  exact kernel.core.leaveKernel_books

omit [ListOps σ Queue TaskId] in
theorem leaveUnlessSwitched_switched (inKernel : kernel.core.inKernel = true) :
    kernel.leaveUnlessSwitched.core.books = kernel.core.books := by
  rw [leaveUnlessSwitched, inKernel]
  rfl

omit [ListOps σ Queue TaskId] in
theorem Yields.closes {books : Books} {frames : List Frame}
    (bare : Bare frames) (yields : Yields books frames kernel.core.books) :
    Closes books kernel.leaveUnlessSwitched.core.books := by
  have inKernel : kernel.core.inKernel = true := yields.inKernel
  rw [leaveUnlessSwitched_switched inKernel]
  exact .yields bare yields

theorem deliverKey_books {result : UInt8} (inUserMode : kernel.core.inKernel = false)
    (delivered : kernel.deliverKey result = .ok after) :
    Closes kernel.core.books after.leaveUnlessSwitched.core.books := by
  unfold deliverKey at delivered
  rcases bind_eq_ok.mp delivered with ⟨reader, -, rest⟩
  dsimp only at rest
  split at rest
  · rcases bind_eq_ok.mp rest with ⟨unlinked, deleted, rest⟩
    rcases bind_eq_ok.mp rest with ⟨linked, added, rest⟩
    rcases bind_eq_ok.mp rest with ⟨queued, updated, dispatched⟩
    have yields := schedNextRr_books dispatched
    rw [updateProcessStateRr_books updated, liftList_core added] at yields
    have quiet : (unlinked.mapCore fun core => core.setState reader .ready).core.books =
        kernel.core.books := by
      simp only [mapCore, Core.setState_books, liftList_core deleted]
      rfl
    rw [quiet] at yields
    exact yields.closes (by simp [Bare])
  · cases rest
    have stays := @leaveUnlessSwitched_stays σ
      (kernel.mapCore fun core => { core with circbuff := core.circbuff.push result }) inUserMode
    rw [stays]
    exact .leaves

theorem keyboardRoutine_books {llegit : UInt8} (inUserMode : kernel.core.inKernel = false)
    (done : kernel.keyboardRoutine llegit = .ok after) :
    Closes (kernel.core.books.post .user) after.core.books := by
  have entered : (kernel.mapCore Core.enterSystem).core.books = kernel.core.books.post .user :=
    kernel.core.enterSystem_books
  have mode : (kernel.mapCore Core.enterSystem).core.inKernel = false := inUserMode
  unfold keyboardRoutine at done
  dsimp only at done
  split at done
  · cases done
    rw [leaveUnlessSwitched_stays mode, entered]
    exact .leaves
  · rcases bind_eq_ok.mp done with ⟨delivered, key, final⟩
    cases final
    rw [← entered]
    exact deliverKey_books mode key

def Kernel.Expires (kernel : Kernel σ) : Prop := toUnsigned (kernel.core.leftTicks - 1) = 0

instance (kernel : Kernel σ) : Decidable kernel.Expires := inferInstanceAs (Decidable (_ = _))

theorem schedule_books (done : kernel.schedule [.clkRoutine] = .ok after)
    (inUserMode : kernel.core.inKernel = false) :
    Closes (if kernel.Expires then kernel.core.books.post .count else kernel.core.books)
      after.leaveUnlessSwitched.core.books := by
  unfold schedule Core.needsSchedRr at done
  by_cases expires : kernel.Expires
  · have zero : kernel.core.updateSchedDataRr.leftTicks = 0 := expires
    rw [if_pos zero] at done
    rw [if_pos expires]
    have counted : kernel.core.updateSchedDataRr.countTransition.books =
        kernel.core.books.post .count := Core.countTransition_books _
    dsimp only at done
    rw [if_pos rfl] at done
    have dispatched : ∀ {queued : Kernel σ},
        queued.core.books = kernel.core.books.post .count →
        queued.schedNextRr [.clkRoutine] = .ok after →
        Closes (kernel.core.books.post .count) after.leaveUnlessSwitched.core.books := by
      intro queued same dispatched
      have yields := schedNextRr_books dispatched
      rw [same] at yields
      exact yields.closes (by simp [Bare])
    split at done
    · rcases bind_eq_ok.mp done with ⟨queued, moved, rest⟩
      exact dispatched ((updateProcessStateRr_books moved).trans counted) rest
    · exact dispatched counted done
  · have positive : kernel.core.updateSchedDataRr.leftTicks ≠ 0 := expires
    rw [if_neg positive] at done
    rw [if_neg expires]
    cases done
    have stays := @leaveUnlessSwitched_stays σ
      { kernel with core := kernel.core.updateSchedDataRr } inUserMode
    exact stays ▸ .leaves

theorem clkRoutine_books (inUserMode : kernel.core.inKernel = false)
    (done : kernel.clkRoutine = .ok after) :
    Closes (kernel.core.books.posts (if kernel.Expires then [.user, .count] else [.user]))
      after.core.books := by
  unfold clkRoutine at done
  rcases bind_eq_ok.mp done with ⟨scheduled, schedule, final⟩
  cases final
  have closes := schedule_books schedule inUserMode
  have entered : (kernel.mapCore fun core => { core.enterSystem with
      zeosTicks := Core.wrap (core.enterSystem.zeosTicks + 1) }).core.books =
        kernel.core.books.post .user :=
    kernel.core.enterSystem_books
  rw [entered] at closes
  by_cases expires : kernel.Expires
  · have same : Kernel.Expires (kernel.mapCore fun core => { core.enterSystem with
        zeosTicks := Core.wrap (core.enterSystem.zeosTicks + 1) }) := expires
    rw [if_pos same] at closes
    rw [if_pos expires]
    exact closes
  · have same : ¬Kernel.Expires (kernel.mapCore fun core => { core.enterSystem with
        zeosTicks := Core.wrap (core.enterSystem.zeosTicks + 1) }) := expires
    rw [if_neg same] at closes
    rw [if_neg expires]
    exact closes

/-! ### Resuming -/

/-- What the resumption of a stack does, after the tail of `sched_next_rr`. A stack
without a routine leaves the task where it is. -/
inductive Resumes (books : Books) : Books → Prop
  | rests : Resumes books books
  | closes {after : Books} (closes : Closes books after) : Resumes books after

omit [ListOps σ Queue TaskId] in
theorem finishCall_books {result : Int} (same : after.core.books = kernel.core.books) :
    (finishCall (after, some result)).core.books = kernel.core.books.leave := by
  rw [finishCall]
  simp only [mapCore, Core.sysret, Core.leaveKernel_books, Core.setEax_books, same]

omit [ListOps σ Queue TaskId] in
theorem Keeps.closes {books : Books} {outcome : Kernel σ × Option Int}
    (keeps : Keeps books outcome) :
    Closes books (finishCall outcome).core.books := by
  cases keeps with
  | returns result same =>
      rw [← same, finishCall_books rfl]
      exact .leaves
  | yields frames bare yields => exact .yields bare yields

/-- The stack starts with the tail of `sched_next_rr`. -/
def Queued : List Frame → Bool
  | .schedNextRr :: _ => true
  | _ => false

theorem resumeBare_books {frames : List Frame} (bare : ∀ rest, frames ≠ .schedNextRr :: rest)
    (done : resumeFrames frames kernel = .ok after) :
    Resumes kernel.core.books after.core.books := by
  cases frames with
  | nil =>
      cases done
      exact .rests
  | cons frame frames =>
      cases frame with
      | schedNextRr => exact absurd rfl (bare frames)
      | cpuIdle =>
          cases done
          exact .rests
      | retFromFork | sysReadQueued | sysExit =>
          cases done
          rw [finishCall_books rfl]
          exact .closes .leaves
      | sysSemWait =>
          cases done
          rw [finishCall_books sysSemWaitTail_books]
          exact .closes .leaves
      | sysReadLoop buffer count i =>
          rcases bind_eq_ok.mp done with ⟨outcome, loops, final⟩
          cases final
          exact .closes (readLoop_books loops).closes
      | keyboardRoutine | clkRoutine =>
          cases done
          simp only [mapCore, Core.leaveKernel_books]
          exact .closes .leaves

theorem resume_books (nested : ∀ rest, kernel.currentTask.kernelEsp ≠
      .schedNextRr :: .schedNextRr :: rest) (done : kernel.resume = .ok after) :
    Resumes (kernel.core.books.enter.posts
      (if Queued kernel.currentTask.kernelEsp then [.count, .ready] else [])) after.core.books := by
  let entered : Kernel σ := kernel.mapCore fun core => { core with inKernel := false }
  have done : resumeFrames kernel.currentTask.kernelEsp entered = .ok after := done
  cases stack : kernel.currentTask.kernelEsp with
  | nil =>
      rw [stack] at done
      exact resumeBare_books (by simp) done
  | cons frame frames =>
      rw [stack] at done nested
      by_cases queued : frame = .schedNextRr
      · subst queued
        have bare : ∀ rest, frames ≠ .schedNextRr :: rest := fun rest same =>
          nested rest (congrArg (Frame.schedNextRr :: ·) same)
        have tail : entered.schedNextRrTail.core.books =
            kernel.core.books.enter.posts [.count, .ready] := by
          simp only [schedNextRrTail, mapCore, Core.chargeReady_books, Core.countTransition_books]
          rfl
        have resumed : resumeFrames frames entered.schedNextRrTail = .ok after := done
        rw [show Queued (.schedNextRr :: frames) = true from rfl, if_pos rfl, ← tail]
        exact resumeBare_books bare resumed
      · have bare : ∀ rest, frame :: frames ≠ .schedNextRr :: rest := fun rest same =>
          queued (List.cons.inj same).1
        have notQueued : Queued (frame :: frames) = false := by
          cases frame <;> first | rfl | exact absurd rfl queued
        rw [notQueued]
        exact resumeBare_books bare done

/-! ## Steps -/

def Kernel.opening (kernel : Kernel σ) : Event → List Posting
  | .resume => if Queued kernel.currentTask.kernelEsp then [.count, .ready] else []
  | .clock => if kernel.Expires then [.user, .count] else [.user]
  | _ => [.user]

/-- The calls that may open an account. -/
def Event.Creation : Event → Prop
  | .fork | .clone .. => True
  | _ => False

inductive BookStep (kernel : Kernel σ) (event : Event) (after : Kernel σ) : Prop
  | refused (creation : event.Creation)
      (states : ∀ t, (after.core.task t).state = (kernel.core.task t).state)
      (books : after.core.books = (kernel.core.books.enter.posts (kernel.opening event)).leave)
  | closes (noCreation : ¬event.Creation) (closes : Closes (kernel.core.books.enter.posts
      (kernel.opening event)) after.core.books)
  | rests (resumption : event = .resume) (books : after.core.books =
      kernel.core.books.enter.posts (kernel.opening event))
  | opens (creation : event.Creation)
      (child : TaskId) (first : kernel.first .freequeue = .ok child)
      (books : after.core.books =
        ((kernel.core.books.enter.posts (kernel.opening event)).opened child
          .zero [.retFromFork]).leave)
  | outOfFrames (creation : event.Creation)
      (child : TaskId) (first : kernel.first .freequeue = .ok child)
      (state : (after.core.task child).state = kernel.currentTask.state) (stats : Stats)
      (books : after.core.books =
        ((kernel.core.books.enter.posts (kernel.opening event)).opened child
          stats kernel.currentTask.kernelEsp).leave)

omit [ListOps σ Queue TaskId] in
theorem books_inUserMode (inUserMode : kernel.core.inKernel = false) :
    kernel.core.books.enter = kernel.core.books := by
  rw [Books.enter, ← inUserMode]
  rfl

theorem systemCall_books {event : Event} {body : Kernel σ → Except Fault (Kernel σ × Option Int)}
    (noCreation : ¬event.Creation) (inUserMode : kernel.core.inKernel = false)
    (opening : kernel.opening event = [.user])
    (keeps : ∀ {entered outcome}, body entered = .ok outcome → Keeps entered.core.books outcome)
    (done : kernel.systemCall body = .ok after) : BookStep kernel event after := by
  unfold systemCall at done
  rcases bind_eq_ok.mp done with ⟨outcome, called, final⟩
  cases final
  have kept := keeps called
  have entered : (kernel.mapCore Core.enterSystem).core.books = kernel.core.books.post .user :=
    kernel.core.enterSystem_books
  rw [entered] at kept
  apply BookStep.closes noCreation
  rw [opening, books_inUserMode inUserMode]
  exact kept.closes

omit [ListOps σ Queue TaskId] in
theorem returning_keeps {body : Kernel σ → Except Fault (Kernel σ × Int)}
    (same : ∀ {entered after result}, body entered = .ok (after, result) →
      after.core.books = entered.core.books) {entered : Kernel σ} {outcome : Kernel σ × Option Int}
    (done : returning body entered = .ok outcome) : Keeps entered.core.books outcome := by
  unfold returning at done
  rcases bind_eq_ok.mp done with ⟨⟨after, result⟩, called, final⟩
  cases final
  exact .returns result (same called)

theorem opening_books {event : Event} {body : Kernel σ → Except Fault (Kernel σ × Int)}
    (inUserMode : kernel.core.inKernel = false) (opening : kernel.opening event = [.user])
    (creation : event.Creation)
    (opens : ∀ {entered after result}, body entered = .ok (after, result) → Opens entered after)
    (done : kernel.systemCall (returning body) = .ok after) : BookStep kernel event after := by
  unfold systemCall returning at done
  rcases bind_eq_ok.mp done with ⟨outcome, called, final⟩
  rcases bind_eq_ok.mp called with ⟨⟨created, result⟩, made, returned⟩
  cases returned
  cases final
  have entered : (kernel.mapCore Core.enterSystem).core.books = kernel.core.books.post .user :=
    kernel.core.enterSystem_books
  have entry : kernel.core.books.enter.posts (kernel.opening event) =
      kernel.core.books.post .user := by
    rw [opening, books_inUserMode inUserMode]
    rfl
  cases opens made with
  | refused same =>
      refine .refused creation (fun t => ?_) ?_
      · simp [same, finishCall, mapCore]
      · rw [entry, ← entered, same]
        exact finishCall_books rfl
  | outOfFrames child first state copied =>
      generalize (kernel.mapCore Core.enterSystem).core.books.account _ = stats at copied
      refine .outOfFrames creation child first ?_ stats ?_
      · simpa [finishCall, mapCore, currentTask] using state
      · have stack : (kernel.mapCore Core.enterSystem).core.books.stack
            (kernel.mapCore Core.enterSystem).core.current = kernel.currentTask.kernelEsp :=
          congrFun (congrArg Books.stack entered) _
        rw [entry, ← entered, ← stack, ← copied]
        exact finishCall_books rfl
  | opens child first opened =>
      refine .opens creation child first ?_
      rw [entry, ← entered, ← opened]
      exact finishCall_books rfl

theorem execute_books {event : Event} (enabled : event.Enabled kernel.core)
    (nested : ∀ rest, kernel.currentTask.kernelEsp ≠ .schedNextRr :: .schedNextRr :: rest)
    (done : kernel.execute event = .ok after) : BookStep kernel event after := by
  have userMode := enabled.inUserMode
  cases event with
  | resume =>
      have resumed := resume_books nested done
      generalize same : after.core.books = books at resumed
      cases resumed with
      | rests => exact .rests rfl same
      | closes closes =>
          apply BookStep.closes id
          rw [same]
          exact closes
  | clock =>
      have mode := userMode Event.noConfusion
      apply BookStep.closes id
      rw [books_inUserMode mode]
      exact clkRoutine_books mode done
  | keyboard llegit =>
      have mode := userMode Event.noConfusion
      apply BookStep.closes id
      rw [books_inUserMode mode]
      exact keyboardRoutine_books mode done
  | getpid | gettime | niSyscall =>
      refine systemCall_books id (userMode Event.noConfusion) rfl (fun called => ?_) done
      exact returning_keeps (fun same => by cases same; rfl) called
  | fork => exact opening_books (userMode Event.noConfusion) rfl trivial sysFork_books done
  | clone function stack =>
      exact opening_books (userMode Event.noConfusion) rfl trivial sysClone_books done
  | exit =>
      change kernel.systemCall (fun k => do
        let k ← k.sysExit
        return (k, none)) = .ok after at done
      refine systemCall_books id (userMode Event.noConfusion) rfl (fun called => ?_) done
      rcases bind_eq_ok.mp called with ⟨exited, left, final⟩
      cases final
      exact .yields [.sysExit] (by simp [Bare]) (sysExit_books left)
  | sbrk amount =>
      exact systemCall_books id (userMode Event.noConfusion) rfl (returning_keeps sysSbrk_books)
        done
  | semInit nSem value =>
      exact systemCall_books id (userMode Event.noConfusion) rfl (returning_keeps sysSemInit_books)
        done
  | semWait nSem =>
      exact systemCall_books id (userMode Event.noConfusion) rfl sysSemWait_books done
  | semSignal nSem =>
      exact systemCall_books id (userMode Event.noConfusion) rfl
        (returning_keeps sysSemSignal_books) done
  | semDestroy nSem =>
      exact systemCall_books id (userMode Event.noConfusion) rfl
        (returning_keeps sysSemDestroy_books) done
  | read fd buffer count i =>
      exact systemCall_books id (userMode Event.noConfusion) rfl sysRead_books done
  | write fd buffer size =>
      refine systemCall_books id (userMode Event.noConfusion) rfl (returning_keeps fun called => ?_)
        done
      rcases bind_eq_ok.mp called with ⟨written, -, final⟩
      cases final
      rfl
  | getStats pid st =>
      exact systemCall_books id (userMode Event.noConfusion) rfl (returning_keeps sysGetStats_books)
        done

end Routines

/-! ## Stacks -/

@[simp] theorem Books.post_stack (books : Books) (posting : Posting) :
    (books.post posting).stack = books.stack := by
  cases posting <;> rfl

@[simp] theorem Books.post_current (books : Books) (posting : Posting) :
    (books.post posting).current = books.current := by
  cases posting <;> rfl

@[simp] theorem Books.post_idleTask (books : Books) (posting : Posting) :
    (books.post posting).idleTask = books.idleTask := by
  cases posting <;> rfl

@[simp] theorem Books.posts_idleTask (books : Books) (postings : List Posting) :
    (books.posts postings).idleTask = books.idleTask := by
  induction postings generalizing books with
  | nil => rfl
  | cons posting postings induction => exact (induction (books.post posting)).trans (by simp)

@[simp] theorem Books.posts_inKernel (books : Books) (postings : List Posting) :
    (books.posts postings).inKernel = books.inKernel := by
  induction postings generalizing books with
  | nil => rfl
  | cons posting postings induction =>
      exact (induction (books.post posting)).trans (by cases posting <;> rfl)

@[simp] theorem Books.posts_stack (books : Books) (postings : List Posting) :
    (books.posts postings).stack = books.stack := by
  induction postings generalizing books with
  | nil => rfl
  | cons posting postings induction => exact (induction (books.post posting)).trans (by simp)

@[simp] theorem Books.posts_current (books : Books) (postings : List Posting) :
    (books.posts postings).current = books.current := by
  induction postings generalizing books with
  | nil => rfl
  | cons posting postings induction => exact (induction (books.post posting)).trans (by simp)

/-- No stack holds the tail of `sched_next_rr` twice on top. -/
def Books.Flat (books : Books) : Prop :=
  ∀ t rest, books.stack t ≠ .schedNextRr :: .schedNextRr :: rest

theorem Books.Flat.switchTo {books : Books} (flat : books.Flat) (next : TaskId)
    {frames : List Frame} (bare : ∀ rest, frames ≠ .schedNextRr :: .schedNextRr :: rest) :
    (books.switchTo next frames).Flat := by
  intro t rest
  change (if t = books.current then frames else books.stack t) ≠ _
  split
  · exact bare rest
  · exact flat t rest

theorem Books.Flat.opened {books : Books} (flat : books.Flat) (child : TaskId) (stats : Stats)
    {frames : List Frame} (bare : ∀ rest, frames ≠ .schedNextRr :: .schedNextRr :: rest) :
    (books.opened child stats frames).Flat := by
  intro t rest
  change (if t = child then frames else books.stack t) ≠ _
  split
  · exact bare rest
  · exact flat t rest

theorem Books.Flat.posts {books : Books} (flat : books.Flat) (postings : List Posting) :
    (books.posts postings).Flat := by
  intro t
  rw [Books.posts_stack]
  exact flat t

theorem Books.Flat.post {books : Books} (flat : books.Flat) (posting : Posting) :
    (books.post posting).Flat :=
  flat.posts [posting]

theorem Closes.flat {books after : Books} (flat : books.Flat) (closes : Closes books after) :
    after.Flat := by
  cases closes with
  | leaves => exact flat.post .system
  | yields bare yields =>
      cases yields with
      | toNext next =>
          exact (flat.post .system).switchTo next fun rest same =>
            bare.1 rest (List.cons.inj same).2
      | toIdle => exact flat.switchTo _ fun rest => bare.1 (.schedNextRr :: rest)

theorem BookStep.flat {σ : Type} [ListOps σ Queue TaskId] {kernel after : Kernel σ} {event : Event}
    (flat : kernel.core.books.Flat) (step : BookStep kernel event after) :
    after.core.books.Flat := by
  have entered : (kernel.core.books.enter.posts
      (kernel.opening event)).Flat :=
    Books.Flat.posts (show kernel.core.books.enter.Flat from flat) _
  cases step with
  | refused creation states books =>
      rw [books]
      exact entered.post .system
  | closes noCreation closes => exact closes.flat entered
  | rests resumption books =>
      rw [books]
      exact entered
  | opens creation child first books =>
      rw [books]
      exact (entered.opened child .zero (by simp)).post .system
  | outOfFrames creation child first state stats books =>
      rw [books]
      exact (entered.opened child stats (flat kernel.core.current)).post .system

end Zeos
