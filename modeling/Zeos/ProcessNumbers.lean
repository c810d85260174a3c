import Zeos.Families
import Zeos.UserAccess

/-! # Process numbers

`global_PID` only grows, and each new task takes the next value of it. A number
therefore names one task of a run, whatever becomes of the task structures.
-/

namespace Zeos

open Foundation Kernel

/-! ## Numbers in use -/

structure Processes.Distinct (view : Processes) : Prop where
  below : ∀ t, view.live t → view.pid t < view.globalPID
  apart : ∀ t other, view.live t → view.live other → view.pid t = view.pid other → t = other

/-- No other task than `t` has the number `pid`, which has been given out. -/
structure Processes.Names (view : Processes) (pid : Int) (t : TaskId) : Prop where
  below : pid < view.globalPID
  only : ∀ other, view.live other → view.pid other = pid → other = t

/-- Nobody has the number `pid`, which has been given out. -/
structure Processes.Retired (view : Processes) (pid : Int) : Prop where
  below : pid < view.globalPID
  nobody : ∀ t, view.live t → view.pid t ≠ pid

section Steps

variable {view after : Processes} {caller : TaskId} {event : Event}

/-- Who is alive after a step was so before with the same number, or is the next free task
and has the next number. -/
theorem ProcessStep.live_pid (sound : view.Sound caller)
    (step : ProcessStep view caller event after) {t : TaskId} (live : after.live t) :
    view.live t ∧ after.pid t = view.pid t ∨
      view.freequeue.head? = some t ∧ after.pid t = view.globalPID ∧
        after.globalPID = view.globalPID + 1 := by
  cases step with
  | keeps event after keeps full =>
      exact .inl ⟨(keeps.live t).mp live, congrFun keeps.pid t⟩
  | noMemory child rest free mm outOfFrames =>
      exact .inl ⟨live, sound.update_live free live _ _⟩
  | forked child rest free mm copied =>
      rcases live with old | isChild
      · exact .inl ⟨old, sound.update_live free old _ _⟩
      · subst isChild
        exact .inr ⟨congrArg List.head? free, Function.update_self .., rfl⟩
  | cloned function stack child rest free =>
      rcases live with old | isChild
      · exact .inl ⟨old, sound.update_live free old _ _⟩
      · subst isChild
        exact .inr ⟨congrArg List.head? free, Function.update_self .., rfl⟩
  | exited mm freed => exact .inl ⟨live.1, Function.update_of_ne live.2 _ _⟩
  | moved amount mm result outcome => exact .inl ⟨live, rfl⟩

theorem ProcessStep.globalPID_le (step : ProcessStep view caller event after) :
    view.globalPID ≤ after.globalPID := by
  cases step with
  | keeps event after keeps full => exact keeps.globalPID.ge
  | forked child rest free mm copied => exact Int.le_of_lt (Int.lt_succ_self _)
  | cloned function stack child rest free => exact Int.le_of_lt (Int.lt_succ_self _)
  | _ => exact le_refl _

theorem ProcessStep.globalPID_eq (step : ProcessStep view caller event after)
    (notFork : event ≠ .fork) (notClone : ∀ function stack, event ≠ .clone function stack) :
    after.globalPID = view.globalPID := by
  cases step with
  | keeps event after keeps full => exact keeps.globalPID
  | noMemory child rest free mm outOfFrames => exact absurd rfl notFork
  | forked child rest free mm copied => exact absurd rfl notFork
  | cloned function stack child rest free => exact absurd rfl (notClone function stack)
  | exited mm freed => rfl
  | moved amount mm result outcome => rfl

theorem ProcessStep.distinct (sound : view.Sound caller)
    (step : ProcessStep view caller event after) (distinct : view.Distinct) : after.Distinct where
  below t live := by
    have grows := step.globalPID_le
    rcases step.live_pid sound live with ⟨old, same⟩ | ⟨-, number, next⟩
    · have before := distinct.below t old
      omega
    · omega
  apart t other live otherLive same := by
    rcases step.live_pid sound live with ⟨old, kept⟩ | ⟨isChild, number, next⟩ <;>
      rcases step.live_pid sound otherLive with ⟨older, keptToo⟩ | ⟨isChildToo, numberToo, nextToo⟩
    · exact distinct.apart t other old older (by omega)
    · have before := distinct.below t old
      omega
    · have before := distinct.below other older
      omega
    · exact Option.some.inj (isChild.symm.trans isChildToo)

theorem ProcessStep.names (sound : view.Sound caller)
    (step : ProcessStep view caller event after) {pid : Int} {t : TaskId}
    (names : view.Names pid t) : after.Names pid t where
  below := Int.lt_of_lt_of_le names.below step.globalPID_le
  only other live same := by
    have given := names.below
    rcases step.live_pid sound live with ⟨old, kept⟩ | ⟨-, number, -⟩
    · exact names.only other old (kept.symm.trans same)
    · omega

theorem ProcessStep.retired (sound : view.Sound caller)
    (step : ProcessStep view caller event after) {pid : Int}
    (retired : view.Retired pid) : after.Retired pid where
  below := Int.lt_of_lt_of_le retired.below step.globalPID_le
  nobody t live same := by
    have given := retired.below
    rcases step.live_pid sound live with ⟨old, kept⟩ | ⟨-, number, -⟩
    · exact retired.nobody t old (kept.symm.trans same)
    · omega

theorem Processes.Distinct.exit (distinct : view.Distinct) (sound : view.Sound caller) (mm : Mm) :
    (view.removeExited caller mm).Retired (view.pid caller) where
  below := distinct.below caller sound.callerLive
  nobody t live same := by
    have kept : (view.removeExited caller mm).pid t = view.pid t :=
      Function.update_of_ne live.2 _ _
    exact live.2 (distinct.apart t caller live.1 sound.callerLive (kept.symm.trans same))

end Steps

/-! ## What fork and clone return -/

def asNumber (result : Int) : Option Int := if 0 ≤ result then some result else none

/-- The number that a fork or a clone returns when it makes a task. -/
def newNumber (transition : Recorded) : Option Int :=
  let eax := (transition.after.core.task transition.before.core.current).context.eax
  match transition.label with
  | .fork => asNumber eax
  | .clone _ _ => asNumber eax
  | _ => none

def Numbers (before : Core) (number : Option Int) (after : Core) : Prop :=
  number = none ∧ after.globalPID = before.globalPID ∨
    number = some before.globalPID ∧ after.globalPID = before.globalPID + 1

section Returned

variable {kernel : SequenceKernel} {machine : Machine} {before after : SequenceKernel}

theorem ForkOutcome.numbers (notNegative : 0 ≤ kernel.core.globalPID)
    {outcome : SequenceKernel × Int} (forked : ForkOutcome kernel outcome) :
    outcome.1.core.current = kernel.core.current ∧
      Numbers kernel.core (asNumber outcome.2) outcome.1.core := by
  cases forked with
  | full empty => exact ⟨rfl, .inl ⟨rfl, rfl⟩⟩
  | noMemory child rest free mm outOfFrames =>
      exact ⟨by simp [forkFailed], .inl ⟨rfl, by simp [forkFailed]⟩⟩
  | forked child rest free mm copied =>
      exact ⟨by simp [Kernel.forked], .inr ⟨if_pos notNegative, by simp [Kernel.forked]⟩⟩

theorem CloneOutcome.numbers (notNegative : 0 ≤ kernel.core.globalPID) {function stack : Nat}
    {outcome : SequenceKernel × Int} (cloned : CloneOutcome kernel function stack outcome) :
    outcome.1.core.current = kernel.core.current ∧
      Numbers kernel.core (asNumber outcome.2) outcome.1.core := by
  cases cloned with
  | refused error negative => exact ⟨rfl, .inl ⟨if_neg (Int.not_le.mpr negative), rfl⟩⟩
  | cloned child rest free =>
      exact ⟨by simp [Kernel.cloned, Core.cloneTo],
        .inr ⟨if_pos notNegative, by simp [Kernel.cloned]⟩⟩

theorem Numbers.finish {outcome : SequenceKernel × Int} {event : Event}
    (entry : Entry event before.core kernel.core)
    (call : outcome.1.core.current = kernel.core.current ∧
      Numbers kernel.core (asNumber outcome.2) outcome.1.core) :
    Numbers before.core (asNumber ((finishCall (outcome.1, some outcome.2)).core.task
      before.core.current).context.eax) (finishCall (outcome.1, some outcome.2)).core := by
  have current : before.core.current = outcome.1.core.current :=
    entry.current.symm.trans call.1.symm
  have kept : (finishCall (outcome.1, some outcome.2)).core.globalPID =
      outcome.1.core.globalPID := rfl
  rw [current, finishCall_eax, Numbers, kept, ← entry.globalPID]
  exact call.2

theorem step_numbers (disciplined : Disciplined before) (numbered : before.processes.Numbered)
    {event : Event} (step : (checkedZeos machine).step before event after) :
    Numbers before.core (newNumber ⟨before, event, after⟩) after.core := by
  have next : 2 ≤ before.core.globalPID := numbered.next
  have moved := step_processes disciplined step
  rcases step_effect disciplined step with ⟨core, entry, entered, notIdle, effect⟩
  have notNegative : 0 ≤ core.globalPID := by
    rw [entry.globalPID]
    omega
  cases effect with
  | fork forked => exact .finish entry (forked.numbers notNegative)
  | clone function stack cloned => exact .finish entry (cloned.numbers notNegative)
  | _ => exact .inl ⟨rfl, moved.globalPID_eq Event.noConfusion fun _ _ => Event.noConfusion⟩

end Returned

/-! ## Runs -/

section Runs

variable {machine : Machine} {history : List Recorded} {first last : SequenceKernel}

theorem newNumbers_of_reaches (reaches : (checkedZeos machine).Reaches history last) :
    ∃ count : Nat, history.filterMap newNumber =
      (List.range count).map (fun index : Nat => (index : Int) + 2) ∧
      last.core.globalPID = count + 2 := by
  induction history using List.reverseRec generalizing last with
  | nil =>
      rcases reaches with ⟨first, start, run⟩
      rw [← run.of_nil, init_eq start]
      exact ⟨0, rfl, rfl⟩
  | append_singleton history transition induction =>
      rcases reaches with ⟨first, start, run⟩
      rcases run.of_snoc with ⟨earlier, step, same⟩
      subst same
      rcases induction ⟨first, start, earlier⟩ with ⟨count, given, next⟩
      have disciplined := reachable_disciplined ⟨history, first, start, earlier⟩
      have numbered := reachable_numbered ⟨first, start, earlier⟩
      rcases transition with ⟨before, event, after⟩
      rcases step_numbers disciplined numbered step with ⟨none, kept⟩ | ⟨number, counted⟩
      · refine ⟨count, ?_, kept.trans next⟩
        rw [List.filterMap_append, given]
        simp [none]
      · refine ⟨count + 1, ?_, ?_⟩
        · have here : List.filterMap newNumber [⟨before, event, after⟩] = [(count : Int) + 2] := by
            rw [List.filterMap_cons_some number, next]
            rfl
          rw [List.filterMap_append, given, here, List.range_succ, List.map_append]
          rfl
        · rw [counted, next]
          push_cast
          ring

theorem boot_distinct (machine : Machine) :
    (Kernel.processes ⟨machine.bootCore 0 1, bootSequences⟩).Distinct where
  below t live := by
    change ((machine.bootCore 0 1).task t).pid < 2
    rw [bootCore_pid]
    rcases boot_live live with same | same <;> subst same <;> decide
  apart t other live otherLive same := by
    change ((machine.bootCore 0 1).task t).pid = ((machine.bootCore 0 1).task other).pid at same
    rw [bootCore_pid, bootCore_pid] at same
    rcases boot_live live with isFirst | isFirst <;>
      rcases boot_live otherLive with isSecond | isSecond <;> subst isFirst isSecond <;>
      first | rfl | exact absurd same (by decide)

theorem reachable_distinct (reaches : (checkedZeos machine).Reaches history last) :
    last.processes.Distinct :=
  processes_invariant reaches (boot_distinct machine) fun _ _ sound step distinct =>
    step.distinct sound distinct

theorem processes_kept {Invariant : Processes → Prop} (disciplined : Disciplined first)
    (run : (checkedZeos machine).Run first history last) (initially : Invariant first.processes)
    (preserved : ∀ {view after : Processes} {caller : TaskId} {event : Event},
      view.Sound caller → ProcessStep view caller event after → Invariant view → Invariant after) :
    Invariant last.processes := by
  let Both (kernel : SequenceKernel) : Prop := Disciplined kernel ∧ Invariant kernel.processes
  have both : Both last := by
    refine run.invariant ⟨disciplined, initially⟩ fun transition _ step holds => ?_
    exact ⟨execute_disciplined holds.1 step.1 step.2,
      preserved holds.1.sound (step_processes holds.1 step) holds.2⟩
  exact both.2

/-- What the numbers of a run are. The live tasks have different ones, and a number that
a task had at any time is nobody else's later on, and nobody's once the task has exited. -/
structure NumbersUnique (history : List Recorded) (last : SequenceKernel) : Prop where
  given : ∃ count : Nat, history.filterMap newNumber =
      (List.range count).map (fun index : Nat => (index : Int) + 2) ∧
    ∀ t, last.Live t → 0 ≤ (last.core.task t).pid ∧ (last.core.task t).pid < count + 2
  apart : ∀ t other, last.Live t → last.Live other →
    (last.core.task t).pid = (last.core.task other).pid → t = other
  kept : ∀ transition ∈ history, ∀ t other, transition.before.Live t → last.Live other →
    (last.core.task other).pid = (transition.before.core.task t).pid → other = t
  retired : ∀ transition ∈ history, transition.label = .exit → ∀ t, last.Live t →
    (last.core.task t).pid ≠ transition.before.currentTask.pid

theorem numbersUnique_of_reaches (reaches : (checkedZeos machine).Reaches history last) :
    NumbersUnique history last := by
  have distinct := reachable_distinct reaches
  have numbered := reachable_numbered reaches
  have disciplined := reachable_disciplined reaches.reachable
  rcases newNumbers_of_reaches reaches with ⟨count, numbers, next⟩
  rcases reaches with ⟨first, start, run⟩
  refine ⟨⟨count, numbers, fun t live => ⟨?_, ?_⟩⟩, distinct.apart, ?_, ?_⟩
  · exact numbered.taken t (disciplined.live_not_free live)
  · rw [← next]
    exact distinct.below t live
  · intro transition member t other live otherLive same
    rcases List.append_of_mem member with ⟨front, back, whole⟩
    rw [whole] at run
    rcases run.around with ⟨earlier, step, later⟩
    have before : (checkedZeos machine).Reaches front transition.before := ⟨first, start, earlier⟩
    have given := reachable_distinct before
    have started := reachable_disciplined before.reachable
    have names : last.processes.Names (transition.before.core.task t).pid t := by
      apply @processes_kept _ _ _ _ (fun view => view.Names _ t)
        (execute_disciplined started step.1 step.2) later
      · apply (step_processes started step).names started.sound
        exact ⟨given.below t live, fun u alive equal => given.apart u t alive live equal⟩
      · intro view after caller event sound moved names
        exact moved.names sound names
    exact names.only other otherLive same
  · intro transition member isExit t live
    rcases List.append_of_mem member with ⟨front, back, whole⟩
    rw [whole] at run
    rcases run.around with ⟨earlier, step, later⟩
    have before : (checkedZeos machine).Reaches front transition.before := ⟨first, start, earlier⟩
    have given := reachable_distinct before
    have started := reachable_disciplined before.reachable
    have retired : last.processes.Retired transition.before.currentTask.pid := by
      apply @processes_kept _ _ _ _ (fun view => view.Retired _)
        (execute_disciplined started step.1 step.2) later
      · rw [isExit] at step
        rcases exit_removes started step with ⟨mm, -, removed⟩
        rw [removed]
        exact given.exit started.sound mm
      · intro view after caller event sound moved retired
        exact moved.retired sound retired
    exact retired.nobody t live

end Runs

/-- Process numbers are never reused: the forks and clones of a run return 2, 3, 4 and so
on, and each number stands for one task. -/
theorem numbersNeverReused {machine : Machine} {history : List (Transition PointerKernel Event)}
    {last : PointerKernel} (reaches : (zeos machine).Reaches history last) :
    NumbersUnique (record history) last.toSequences :=
  numbersUnique_of_reaches (run_toSequences reaches).2

def numberedClones : List Event :=
  [.clone 1048576 1081344, .exit, .resume, .clone 1048576 1081344]

theorem numbersNeverReused_clones :
    ∃ history last, (zeos Machine.sample).Reaches history last ∧
      (record history).filterMap newNumber = [2, 3] ∧
      NumbersUnique (record history) last.toSequences := by
  have computed : (replay numberedClones ⟨Machine.sample.bootCore 0 1, bootLinks⟩).any (fun run =>
      decide ((record run.1).filterMap newNumber = [2, 3])) = true := by
    decide +kernel
  rcases reaches_of_replay computed with ⟨history, last, reaches, numbers⟩
  exact ⟨history, last, reaches, of_decide_eq_true numbers, numbersNeverReused reaches⟩

/-! ## Finding a process by its number -/

def Processes.Named (view : Processes) : Prop := ∀ t, 0 ≤ view.pid t → view.live t

/-- The forks of a run never fail for want of frames, which leaves a task structure behind
with the number of the father. -/
def ForksFindFrames (history : List Recorded) : Prop :=
  ∀ transition ∈ history, transition.label = .fork →
    (transition.after.core.task transition.before.core.current).context.eax ≠ -enomem

theorem ProcessStep.named {view after : Processes} {caller : TaskId} {event : Event}
    (step : ProcessStep view caller event after)
    (enough : event = .fork → view.freequeue ≠ [] → ∀ mm, view.forkPages caller ≠ .ok (mm, false))
    (named : view.Named) : after.Named := by
  intro t numbered
  cases step with
  | keeps event after keeps full =>
      rw [keeps.pid] at numbered
      exact (keeps.live t).mpr (named t numbered)
  | noMemory child rest free mm outOfFrames =>
      exact absurd outOfFrames (enough rfl (by simp [free]) mm)
  | forked child rest free mm copied =>
      by_cases isChild : t = child
      · exact .inr isChild
      · change 0 ≤ Function.update view.pid child view.globalPID t at numbered
        rw [Function.update_of_ne isChild] at numbered
        exact .inl (named t numbered)
  | cloned function stack child rest free =>
      by_cases isChild : t = child
      · exact .inr isChild
      · change 0 ≤ Function.update view.pid child view.globalPID t at numbered
        rw [Function.update_of_ne isChild] at numbered
        exact .inl (named t numbered)
  | exited mm freed =>
      change 0 ≤ Function.update view.pid caller (-1) t at numbered
      by_cases isCaller : t = caller
      · rw [isCaller, Function.update_self] at numbered
        cases numbered
      · rw [Function.update_of_ne isCaller] at numbered
        exact ⟨named t numbered, isCaller⟩
  | moved amount mm result outcome => exact named t numbered

section Lookup

variable {machine : Machine} {history : List Recorded} {before after last : SequenceKernel}

theorem step_noMemory (disciplined : Disciplined before)
    (step : (checkedZeos machine).step before .fork after)
    (free : before.processes.freequeue ≠ []) {mm : Mm}
    (outOfFrames : before.processes.forkPages before.core.current = .ok (mm, false)) :
    (after.core.task before.core.current).context.eax = -enomem := by
  rcases step_effect disciplined step with ⟨core, entry, entered, notIdle, effect⟩
  rw [← entry_processes entry, ← entry.current] at outOfFrames
  cases effect with
  | fork forked =>
      cases forked with
      | full empty => exact absurd empty free
      | noMemory child rest found mm failed =>
          have current : (Kernel.forkFailed ⟨core, before.queues⟩ child mm).core.current =
              before.core.current := by
            simp [forkFailed, entry.current]
          rw [← current]
          exact finishCall_eax _ _
      | forked child rest found other copied => cases copied.symm.trans outOfFrames

theorem boot_named (machine : Machine) :
    (Kernel.processes ⟨machine.bootCore 0 1, bootSequences⟩).Named := by
  intro t numbered
  change 0 ≤ ((machine.bootCore 0 1).task t).pid at numbered
  rw [bootCore_pid] at numbered
  by_cases isIdle : t = 0
  · exact .inl isIdle
  · by_cases isFirst : t = 1
    · exact .inr (.inl isFirst)
    · rw [if_neg isIdle, if_neg isFirst] at numbered
      cases numbered

theorem named_of_reaches (reaches : (checkedZeos machine).Reaches history last)
    (enough : ForksFindFrames history) : last.processes.Named := by
  rcases reaches with ⟨first, start, run⟩
  rw [init_eq start] at run
  let Both (kernel : SequenceKernel) : Prop := Disciplined kernel ∧ kernel.processes.Named
  have both : Both last := by
    refine run.invariant ⟨boot_disciplined machine, boot_named machine⟩
      fun transition member step holds => ?_
    refine ⟨execute_disciplined holds.1 step.1 step.2, ?_⟩
    apply (step_processes holds.1 step).named _ holds.2
    intro isFork free mm outOfFrames
    apply enough transition member isFork
    rw [isFork] at step
    exact step_noMemory holds.1 step free outOfFrames
  exact both.2

/-- What `sys_get_stats` does with a number and an address that it accepts: it stores the
statistics of the live task with this number, or says that there is none. -/
def Found (before : SequenceKernel) (pid : Int) (st : Nat) (after : SequenceKernel) : Prop :=
  (∃ t, before.Live t ∧ (before.core.task t).pid = pid ∧
    (after.core.task before.core.current).context.eax = 0 ∧
    before.core.mm.storeBytes before.currentTask.dirPagesBaseAddr st
      ((before.core.enterSystem.setRemaining t).task t).pStats.bytes = .ok after.core.mm) ∨
  (∀ t, before.Live t → (before.core.task t).pid ≠ pid) ∧
    (after.core.task before.core.current).context.eax = esrch ∧ after.core.mm = before.core.mm

theorem getStats_found {pid : Int} {st : Nat} (notNull : st ≠ 0)
    (accepted : accessOk false st 28 = true) (notNegative : 0 ≤ pid)
    (named : before.processes.Named)
    (executed : before.execute (.getStats pid st) = .ok after) : Found before pid st after := by
  rcases bind_eq_ok.mp executed with ⟨outcome, returned, finished⟩
  rcases bind_eq_ok.mp returned with ⟨told, computed, result⟩
  cases result
  cases finished
  let entered : SequenceKernel := before.mapCore Core.enterSystem
  have computed : entered.sysGetStats pid st = .ok told := computed
  have pids : ∀ t, (entered.core.task t).pid = (before.core.task t).pid := by
    intro t
    simp [entered, mapCore]
  unfold sysGetStats at computed
  rw [if_neg (by simp [notNull, accepted]), if_neg (Int.not_lt.mpr notNegative)] at computed
  split at computed
  · rename_i missing
    cases computed
    refine .inr ⟨fun t _ same => ?_, finishCall_eax _ _, finishCall_mm _⟩
    have absent := List.find?_eq_none.mp missing t (List.mem_finRange t)
    rw [pids, same] at absent
    exact absent (decide_eq_true rfl)
  · rename_i t found
    rcases bind_eq_ok.mp computed with ⟨mm, stored, result⟩
    cases result
    have same : (before.core.task t).pid = pid := by
      rw [← pids]
      simpa using List.find?_some found
    have numbered : 0 ≤ before.processes.pid t := notNegative.trans_eq same.symm
    refine .inl ⟨t, named t numbered, same, finishCall_eax _ _, ?_⟩
    have directory : ((entered.core.setRemaining t).task entered.core.current).dirPagesBaseAddr =
        before.currentTask.dirPagesBaseAddr := by
      rw [Core.setRemaining_task]
      simp [entered, mapCore, currentTask]
    change entered.core.mm.storeBytes
      ((entered.core.setRemaining t).task entered.core.current).dirPagesBaseAddr _ _ = _ at stored
    rw [directory] at stored
    rw [finishCall_mm]
    exact stored

theorem found_of_reaches (reaches : (checkedZeos machine).Reaches history last)
    (enough : ForksFindFrames history) {transition : Recorded} (member : transition ∈ history)
    {pid : Int} {st : Nat} (call : transition.label = .getStats pid st) (notNull : st ≠ 0)
    (accepted : accessOk false st 28 = true) (notNegative : 0 ≤ pid) :
    Found transition.before pid st transition.after := by
  rcases reaches with ⟨first, start, run⟩
  rcases List.append_of_mem member with ⟨front, back, whole⟩
  subst whole
  rcases run.around with ⟨earlier, step, -⟩
  have named : transition.before.processes.Named := by
    apply named_of_reaches ⟨first, start, earlier⟩
    intro recorded old
    exact enough recorded (List.mem_append_left _ old)
  rw [call] at step
  exact getStats_found notNull accepted notNegative named step.2

end Lookup

/-- When no fork of the run failed for want of frames, `sys_get_stats` finds exactly the live
tasks by their numbers. -/
theorem statsFindLive {machine : Machine} {history : List (Transition PointerKernel Event)}
    {last : PointerKernel} (reaches : (zeos machine).Reaches history last)
    (enough : ForksFindFrames (record history)) {transition : Recorded}
    (member : transition ∈ record history) {pid : Int} {st : Nat}
    (call : transition.label = .getStats pid st) (notNull : st ≠ 0)
    (accepted : accessOk false st 28 = true) (notNegative : 0 ≤ pid) :
    Found transition.before pid st transition.after :=
  found_of_reaches (run_toSequences reaches).2 enough member call notNull accepted notNegative

def askedAboutClone : List Event :=
  [.clone 1048576 1081344, .getStats 2 1081344]

theorem statsFindLive_clone :
    ∃ history last transition, (zeos Machine.sample).Reaches history last ∧
      transition ∈ record history ∧ transition.label = .getStats 2 1081344 ∧
      (transition.after.core.task transition.before.core.current).context.eax = 0 ∧
      Found transition.before 2 1081344 transition.after := by
  have computed : (replay askedAboutClone ⟨Machine.sample.bootCore 0 1, bootLinks⟩).any (fun run =>
      ((record run.1).all fun transition => decide (transition.label ≠ .fork)) &&
        passesAt 1 (fun transition _ => decide (transition.label = .getStats 2 1081344) &&
          decide ((transition.after.core.task transition.before.core.current).context.eax = 0))
          (record run.1)) = true := by
    decide +kernel
  rcases reaches_of_replay computed with ⟨history, last, reaches, found⟩
  rw [Bool.and_eq_true, List.all_eq_true] at found
  rcases split_of_passesAt found.2 with ⟨transition, rest, whole, tested⟩
  rw [Bool.and_eq_true, decide_eq_true_eq, decide_eq_true_eq] at tested
  have member : transition ∈ record history := by
    rw [whole]
    exact List.mem_append_right _ List.mem_cons_self
  have enough : ForksFindFrames (record history) := fun recorded old isFork =>
    absurd isFork (of_decide_eq_true (found.1 recorded old))
  exact ⟨history, last, transition, reaches, member, tested.1, tested.2,
    statsFindLive reaches enough member tested.1 (by decide) (by decide) (by decide)⟩

end Zeos
