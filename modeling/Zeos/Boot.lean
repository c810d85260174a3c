import Zeos.Refinement

/-! # The state after start-up

Start-up computes the lists without looking at the other variables, so the two
can be told apart, and the rings it builds can be checked by evaluation.
-/

namespace Zeos

open Foundation

section Lists

variable {σ : Type} [ListOps σ Queue TaskId]

/-- The list part of `boot`, with the tasks it picks for idle and for task 1. -/
def bootLists (queues : σ) : Except ListFault (σ × TaskId × TaskId) := do
  let queues ← ListOps.initHead queues .freequeue
  let queues ← (List.finRange nrTasks).foldlM
    (fun queues t => ListOps.addTail queues t .freequeue) queues
  let queues ← ListOps.initHead queues .readyqueue
  let queues ← ListOps.initHead queues .keyboardqueue
  let queues ← (List.finRange nrSemaphores).foldlM
    (fun queues sem => ListOps.initHead queues (.blocked sem)) queues
  let idle ← ListOps.first queues .freequeue
  let queues ← ListOps.del queues idle
  let task1 ← ListOps.first queues .freequeue
  let queues ← ListOps.del queues task1
  return (queues, idle, task1)

end Lists

namespace Core

/-- The assignments of `initTask` to the variables. -/
def initTask (core : Core) (t : TaskId) (pid : Int) (frames : List Frame)
    (context : UserContext) : Core :=
  (core.modifyTask t fun union =>
    { union with
      pid := pid
      semdestroyed := false
      quantum := 50
      pStats := { union.pStats with remainingTicks := 50 }
      kernelEsp := frames
      context := context }).allocateDir t

end Core

/-- The variables when `main` has jumped to user mode. -/
def Machine.bootCore (machine : Machine) (idle task1 : TaskId) : Core :=
  let core := (List.finRange nrTasks).foldl (fun core t =>
    core.modifyTask t fun union => { union with pid := -1 }) machine.initialCore
  let core := { core.initTask idle 0 [.cpuIdle] ⟨0, 0, 0⟩ with idleTask := idle }
  let userEsp := pagLogInitCode * pageSize + (numPagCode + numPagData) * pageSize - 16
  let core := core.initTask task1 1 [] ⟨0, pagLogInitCode * pageSize, userEsp⟩
  let slot := (core.task task1).posInDirCounter
  let core := core.setState task1 .run
  { core with
    current := task1
    leftTicks := (core.task task1).quantum
    mm := (core.mm.setUserPages (core.task task1).dirPagesBaseAddr).setBreak slot heapStart }

/-! ## The lists -/

/-- The freequeue after start-up is all but the first two tasks. -/
def bootSequences : Sequences Queue TaskId :=
  ⟨fun queue => if queue = .freequeue then [2, 3, 4, 5, 6, 7, 8, 9] else []⟩

def bootLinks : Links Queue TaskId :=
  match bootLists nullLinks with
  | .ok (links, _) => links
  | .error _ => nullLinks

theorem bootLists_pointers : bootLists nullLinks = .ok (bootLinks, 0, 1) := by
  have tasks : (bootLists nullLinks).map Prod.snd = .ok (0, 1) := by decide +kernel
  unfold bootLinks
  cases outcome : bootLists nullLinks with
  | error reason =>
      rw [outcome] at tasks
      cases tasks
  | ok result =>
      rw [outcome] at tasks
      have pair : result.2 = (0, 1) := by simpa [Except.map] using tasks
      rw [← pair]

theorem bootLists_sequences :
    bootLists (⟨fun _ => []⟩ : Sequences Queue TaskId) = .ok (bootSequences, 0, 1) := by
  have tasks : (bootLists (⟨fun _ => []⟩ : Sequences Queue TaskId)).map Prod.snd = .ok (0, 1) := by
    decide +kernel
  have contents : ∀ queue,
      (bootLists (⟨fun _ => []⟩ : Sequences Queue TaskId)).map (·.1.elements queue) =
        .ok (bootSequences.elements queue) := by
    decide +kernel
  cases outcome : bootLists (⟨fun _ => []⟩ : Sequences Queue TaskId) with
  | error reason =>
      rw [outcome] at tasks
      cases tasks
  | ok result =>
      rw [outcome] at tasks contents
      rcases result with ⟨⟨elements⟩, pair⟩
      simp only [Except.map, Except.ok.injEq] at tasks contents
      rw [tasks, funext contents]

theorem bootLinks_represents : bootLinks.Represents bootSequences.elements where
  ring := by decide +kernel
  nodup := by decide +kernel
  apart := by
    intro left right element inLeft inRight
    have onlyFree : ∀ queue, element ∈ bootSequences.elements queue → queue = .freequeue := by
      intro queue member
      by_contra other
      simp [bootSequences, other] at member
    rw [onlyFree left inLeft, onlyFree right inRight]

/-! ## Start-up as a whole -/

namespace Kernel

variable {σ : Type} [ListOps σ Queue TaskId]

omit [ListOps σ Queue TaskId] in
theorem liftList_bind {α : Type} (core : Core) (queues : σ) (result : Except ListFault σ)
    (next : Kernel σ → Except Fault α) :
    ((⟨core, queues⟩ : Kernel σ).liftList result >>= next) =
      match result with
      | .ok queues => next ⟨core, queues⟩
      | .error reason => .error (.list reason) := by
  cases result <;> rfl

theorem foldlM_addTail (tasks : List TaskId) (queue : Queue) (change : TaskUnion → TaskUnion)
    (core : Core) (queues : σ) :
    tasks.foldlM (fun (kernel : Kernel σ) t =>
        (kernel.mapCore fun core => core.modifyTask t change).addTail t queue) ⟨core, queues⟩ =
      (⟨tasks.foldl (fun core t => core.modifyTask t change) core, queues⟩ : Kernel σ).liftList
        (tasks.foldlM (fun queues t => ListOps.addTail queues t queue) queues) := by
  induction tasks generalizing core queues with
  | nil => rfl
  | cons t tasks induction =>
      rw [List.foldlM_cons, List.foldlM_cons]
      simp only [addTail, mapCore, liftList_bind]
      cases ListOps.addTail queues t queue with
      | error reason => rfl
      | ok queues => exact induction _ queues

theorem foldlM_initHead (sems : List SemId) (core : Core) (queues : σ) :
    sems.foldlM (fun (kernel : Kernel σ) sem => kernel.initHead (.blocked sem)) ⟨core, queues⟩ =
      (⟨core, queues⟩ : Kernel σ).liftList
        (sems.foldlM (fun queues sem => ListOps.initHead queues (.blocked sem)) queues) := by
  induction sems generalizing queues with
  | nil => rfl
  | cons sem sems induction =>
      rw [List.foldlM_cons, List.foldlM_cons]
      simp only [initHead, liftList_bind]
      cases ListOps.initHead queues (.blocked sem) with
      | error reason => rfl
      | ok queues => exact induction queues

theorem initHead_eq (core : Core) (queues : σ) (queue : Queue) :
    initHead ⟨core, queues⟩ queue =
      (⟨core, queues⟩ : Kernel σ).liftList (ListOps.initHead queues queue) := rfl

theorem boot_eq (machine : Machine) (queues : σ) :
    boot machine queues =
      match bootLists queues with
      | .ok (queues, idle, task1) => .ok ⟨machine.bootCore idle task1, queues⟩
      | .error reason => .error (.list reason) := by
  simp only [boot, bootLists, initFreequeue, initSemaphores, initHead_eq, liftList_bind]
  cases ListOps.initHead queues Queue.freequeue with
  | error reason => rfl
  | ok queues =>
    simp only [ok_bind, foldlM_addTail, liftList_bind]
    cases (List.finRange nrTasks).foldlM
      (fun queues t => ListOps.addTail queues t Queue.freequeue) queues with
    | error reason => rfl
    | ok queues =>
      simp only [ok_bind, initHead_eq, liftList_bind]
      cases ListOps.initHead queues Queue.readyqueue with
      | error reason => rfl
      | ok queues =>
        simp only [ok_bind]
        cases ListOps.initHead queues Queue.keyboardqueue with
        | error reason => rfl
        | ok queues =>
          simp only [ok_bind, foldlM_initHead, liftList_bind]
          cases (List.finRange nrSemaphores).foldlM
            (fun queues sem => ListOps.initHead queues (Queue.blocked sem)) queues with
          | error reason => rfl
          | ok queues =>
            simp only [ok_bind, initIdle, first]
            cases ListOps.first queues Queue.freequeue with
            | error reason => rfl
            | ok idle =>
              simp only [ok_bind, del, liftList_bind]
              cases ListOps.del queues idle with
              | error reason => rfl
              | ok queues =>
                simp only [ok_bind, pure_eq_ok, initTask1, first, mapCore, initTask]
                cases ListOps.first queues Queue.freequeue with
                | error reason => rfl
                | ok task1 =>
                  simp only [ok_bind, del, liftList_bind]
                  cases ListOps.del queues task1 with
                  | error reason => rfl
                  | ok queues => rfl

end Kernel

/-! ## The variables -/

namespace Mm

theorem allocFrame_frame (mm : Mm) :
    mm.allocFrame.1.pagusrTable = mm.pagusrTable ∧ mm.allocFrame.1.dirCounter = mm.dirCounter ∧
      mm.allocFrame.1.programbreakTable = mm.programbreakTable ∧
      mm.allocFrame.1.ram = mm.ram := by
  unfold allocFrame
  split <;> exact ⟨rfl, rfl, rfl, rfl⟩

theorem mapFreshPages_frame (rw : Bool) (pt : DirSlot) (count page : Nat) (mm : Mm) :
    (mapFreshPages rw pt count page mm).dirCounter = mm.dirCounter ∧
      (mapFreshPages rw pt count page mm).programbreakTable = mm.programbreakTable ∧
      (mapFreshPages rw pt count page mm).ram = mm.ram := by
  induction count generalizing page mm with
  | zero => exact ⟨rfl, rfl, rfl⟩
  | succ count induction =>
      rcases allocFrame_frame mm with ⟨-, counters, breaks, ram⟩
      rcases induction (page + 1) (mm.allocFrame.1.setEntry pt page
        ⟨true, rw, true, frameField mm.allocFrame.2⟩) with ⟨laterCounters, laterBreaks, laterRam⟩
      exact ⟨laterCounters.trans counters, laterBreaks.trans breaks, laterRam.trans ram⟩

theorem setUserPages_frame (mm : Mm) (pt : DirSlot) :
    (mm.setUserPages pt).dirCounter = mm.dirCounter ∧
      (mm.setUserPages pt).programbreakTable = mm.programbreakTable ∧
      (mm.setUserPages pt).ram = mm.ram := by
  rcases mapFreshPages_frame false pt numPagCode pagLogInitCode mm with ⟨counters, breaks, ram⟩
  rcases mapFreshPages_frame true pt numPagData pagLogInitData
    (mapFreshPages false pt numPagCode pagLogInitCode mm) with
    ⟨laterCounters, laterBreaks, laterRam⟩
  exact ⟨laterCounters.trans counters, laterBreaks.trans breaks, laterRam.trans ram⟩

end Mm

section BootCore

variable (machine : Machine)

theorem bootCore_frame :
    (machine.bootCore 0 1).current = 1 ∧ (machine.bootCore 0 1).idleTask = 0 ∧
      (machine.bootCore 0 1).inKernel = false ∧
      (machine.bootCore 0 1).semArray = (fun _ => ⟨0, -1⟩) ∧
      (machine.bootCore 0 1).globalPID = 2 :=
  ⟨rfl, rfl, rfl, rfl, rfl⟩

theorem bootCore_input : (machine.bootCore 0 1).circbuff = ⟨fun _ => 0, 0, 0, 0⟩ := rfl

theorem bootCore_state (t : TaskId) : ((machine.bootCore 0 1).task t).state = .run := by
  fin_cases t <;> rfl

theorem bootCore_semdestroyed (t : TaskId) :
    ((machine.bootCore 0 1).task t).semdestroyed = false := by
  fin_cases t <;> rfl

theorem bootCore_kernelEsp (t : TaskId) :
    ((machine.bootCore 0 1).task t).kernelEsp = if t = 0 then [.cpuIdle] else [] := by
  fin_cases t <;> rfl

theorem bootCore_pid (t : TaskId) :
    ((machine.bootCore 0 1).task t).pid = if t = 0 then 0 else if t = 1 then 1 else -1 := by
  fin_cases t <;> rfl

theorem bootCore_slots (t : TaskId) :
    ((machine.bootCore 0 1).task t).dirPagesBaseAddr =
        (if t = 0 then 1 else if t = 1 then 2 else 0) ∧
      ((machine.bootCore 0 1).task t).posInDirCounter =
        if t = 0 then 1 else if t = 1 then 2 else 0 := by
  fin_cases t <;> exact ⟨rfl, rfl⟩

theorem bootCore_mm :
    (machine.bootCore 0 1).mm =
      Mm.setBreak (Mm.setUserPages { machine.initialMm with
        dirCounter := fun slot => if slot.val ≤ 2 then 1 else 0 } 2) 2 heapStart := by
  have counters : (fun slot : DirSlot => if slot.val ≤ 2 then (1 : Int) else 0) =
      Function.update (Function.update (Function.update (fun _ => 0) 0 1) 1 1) 2 1 := by
    funext slot
    fin_cases slot <;> rfl
  rw [counters]
  rfl

theorem boot_pointers : Kernel.boot machine nullLinks = .ok ⟨machine.bootCore 0 1, bootLinks⟩ := by
  rw [Kernel.boot_eq, bootLists_pointers]

theorem boot_sequences :
    Kernel.boot machine (⟨fun _ => []⟩ : Sequences Queue TaskId) =
      .ok ⟨machine.bootCore 0 1, bootSequences⟩ := by
  rw [Kernel.boot_eq, bootLists_sequences]

end BootCore

end Zeos
