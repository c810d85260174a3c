import Zeos.BlockedTime
import Zeos.MemoryCalls

/-! # Memory along a run

What can be relied on around every step of a run, for properties of memory that hold as
long as the steps are of the right kind.
-/

namespace Zeos

open Foundation Kernel

def Event.ManagesMemory : Event → Bool
  | .fork | .clone _ _ | .exit | .sbrk _ => true
  | _ => false

structure MemoryStep (before : SequenceKernel) (event : Event) (after : SequenceKernel) :
    Prop where
  sound : before.processes.Sound before.core.current
  managed : before.processes.mm.Managed
  reserved : before.processes.Reserved
  moved : ProcessStep before.processes before.core.current event after.processes
  typed : event.WellTyped
  idleTask : before.core.idleTask = 0 ∧ after.core.idleTask = 0
  notIdle : event.ManagesMemory = true → before.core.current ≠ 0
  later : after.processes.Sound after.core.current
  exits : event = .exit → ∃ mm,
    before.processes.mm.releaseDir (before.processes.dirPagesBaseAddr before.core.current)
        (before.processes.posInDirCounter before.core.current) = .ok mm ∧
      after.processes = before.processes.removeExited before.core.current mm
  moves : ∀ amount, event = .sbrk amount → ∃ mm result,
    before.processes.mm.sbrk (before.processes.dirPagesBaseAddr before.core.current)
        (before.processes.posInDirCounter before.core.current) amount = .ok (mm, result) ∧
      after.processes = { before.processes with mm := mm }

section Calls

variable {machine : Machine} {before after : SequenceKernel}

theorem exit_removes (disciplined : Disciplined before)
    (step : (checkedZeos machine).step before .exit after) :
    ∃ mm, before.processes.mm.releaseDir (before.processes.dirPagesBaseAddr before.core.current)
        (before.processes.posInDirCounter before.core.current) = .ok mm ∧
      after.processes = before.processes.removeExited before.core.current mm := by
  rcases step_effect disciplined step with ⟨core, entry, entered, notIdle, effect⟩
  cases effect with
  | exit outcome =>
      have removed := outcome.removes entered (notIdle Event.noConfusion rfl)
      have same := entry_processes entry
      change ∃ mm, (Kernel.processes ⟨core, before.queues⟩).mm.releaseDir
        ((Kernel.processes ⟨core, before.queues⟩).dirPagesBaseAddr core.current)
        ((Kernel.processes ⟨core, before.queues⟩).posInDirCounter core.current) = .ok mm ∧
        after.processes = (Kernel.processes ⟨core, before.queues⟩).removeExited core.current mm
        at removed
      rw [same, entry.current] at removed
      exact removed

theorem sbrk_moves {amount : Int} (disciplined : Disciplined before)
    (step : (checkedZeos machine).step before (.sbrk amount) after) :
    ∃ mm result, before.processes.mm.sbrk (before.processes.dirPagesBaseAddr before.core.current)
        (before.processes.posInDirCounter before.core.current) amount = .ok (mm, result) ∧
      after.processes = { before.processes with mm := mm } := by
  rcases step_effect disciplined step with ⟨core, entry, entered, notIdle, effect⟩
  have same := entry_processes entry
  cases effect with
  | sbrk _ outcome =>
      rw [finishCall_processes, ← same, ← entry.current]
      cases outcome with
      | refused mm outcome => exact ⟨mm, none, outcome, rfl⟩
      | moved mm last outcome => exact ⟨mm, some last, outcome, rfl⟩

end Calls

theorem reachable_idleTask {machine : Machine} {kernel : SequenceKernel}
    (reachable : (checkedZeos machine).Reachable kernel) : kernel.core.idleTask = 0 := by
  let Idles (kernel : SequenceKernel) : Prop := Disciplined kernel ∧ kernel.core.idleTask = 0
  have idles : Idles kernel := by
    apply reachable.invariant
    · intro first start
      rw [init_eq start]
      exact ⟨boot_disciplined machine, rfl⟩
    · intro before event after step idles
      exact ⟨execute_disciplined idles.1 step.1 step.2,
        (step_idleTask idles.1 step).trans idles.2⟩
  exact idles.2

theorem reaches_memoryStep {machine : Machine} {history : List Recorded} {last : SequenceKernel}
    (reaches : (checkedZeos machine).Reaches history last) {transition : Recorded}
    (member : transition ∈ history) :
    MemoryStep transition.before transition.label transition.after := by
  rcases reaches.along transition member with ⟨before, after⟩
  have disciplined := reachable_disciplined before
  have step : (checkedZeos machine).step transition.before transition.label transition.after := by
    rcases reaches with ⟨first, start, run⟩
    exact run.step_of_mem member
  have idle := reachable_idleTask before
  refine ⟨disciplined.sound, ?_, ?_, step_processes disciplined step, step.1.1,
    ⟨idle, reachable_idleTask after⟩, fun manages => ?_, (reachable_disciplined after).sound,
    fun exits => ?_, fun amount moves => ?_⟩
  · rcases before with ⟨earlier, reached⟩
    exact reachable_managed reached
  · rcases before with ⟨earlier, reached⟩
    exact reachable_reserved reached
  · rw [← idle]
    apply step.1.notIdle
    · intro same
      rw [same] at manages
      cases manages
    · cases label : transition.label with
      | clock =>
          rw [label] at manages
          cases manages
      | keyboard llegit =>
          rw [label] at manages
          cases manages
      | _ => rfl
  · rw [exits] at step
    exact exit_removes disciplined step
  · rw [moves] at step
    exact sbrk_moves disciplined step

end Zeos
