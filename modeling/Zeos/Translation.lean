import Zeos.Coherence
import Zeos.Processes

/-! # The TLB over a run

The kernel together with CR3 and the TLB: what a run does to page tables, and that
what the TLB may hold for user pages stays right.
-/

namespace Zeos

open Foundation Kernel

def Kernel.writesTables {σ : Type} [ListOps σ Queue TaskId] (kernel : Kernel σ) (event : Event)
    (mmu : Mmu) : Except Fault Mmu :=
  let task := kernel.currentTask
  match event with
  | .fork =>
      if kernel.isEmpty .freequeue then .ok mmu
      else do
        let child := mmu.mm.freeSlot.getD task.dirPagesBaseAddr
        let (mmu, _) ← (mmu.withMm mmu.mm.allocateDir.1).forkPages child task.dirPagesBaseAddr
          task.posInDirCounter
        return mmu
  | .exit => mmu.releaseDir task.dirPagesBaseAddr task.posInDirCounter
  | .sbrk amount => do
      let (mmu, _) ← mmu.sbrk task.dirPagesBaseAddr task.posInDirCounter amount
      return mmu
  | _ => .ok mmu

/-- The kernel, CR3 and the TLB. -/
structure Paged where
  kernel : PointerKernel
  cr3 : DirSlot
  tlb : Tlb

namespace Paged

def mmu (state : Paged) : Mmu := ⟨state.kernel.core.mm, state.cr3, state.tlb⟩

def dir (state : Paged) : DirSlot := state.kernel.currentTask.dirPagesBaseAddr

end Paged

/-- ZeOS with its TLB. A step writes page tables, and the task switch that may end it
compares the directories of the two tasks. -/
def pagedZeos (machine : Machine) : TransitionSystem Paged Event where
  init state := (zeos machine).init state.kernel ∧
    state.mmu = Mmu.setCr3 state.mmu state.dir
  step before event after := (zeos machine).step before.kernel event after.kernel ∧
    ∃ written, before.kernel.writesTables event before.mmu = .ok written ∧
      after.mmu = (written.switchDir before.dir after.dir).withMm after.kernel.core.mm

/-- The step leaves no translation behind in the TLB that it changes: a fork without
enough frames has not changed the entries of its own code pages, an exit does not clear
the table of a directory that another task uses, and `sbrk` maps unmapped pages. -/
def Kernel.KeepsTlb (kernel : SequenceKernel) : Event → Prop
  | .fork =>
      kernel.queues.elements .freequeue = [] ∨
        Mmu.forkDemand kernel.core.mm kernel.currentTask.posInDirCounter ≤
          kernel.core.mm.available.card ∨
        kernel.core.mm.freeSlot.getD kernel.currentTask.dirPagesBaseAddr ≠
          kernel.currentTask.dirPagesBaseAddr ∨
        ∀ page, pagLogInitCode ≤ page → page < pagLogInitData →
          (kernel.core.mm.pagusrTable kernel.currentTask.dirPagesBaseAddr page).rw = true
  | .exit =>
      kernel.core.mm.dirCounter kernel.currentTask.dirPagesBaseAddr = 1 →
        ∀ t, kernel.Live t → t ≠ kernel.core.current →
          (kernel.core.task t).dirPagesBaseAddr ≠ kernel.currentTask.dirPagesBaseAddr
  | .sbrk amount =>
      Mmu.GrowsUnmapped kernel.core.mm kernel.currentTask.dirPagesBaseAddr
        kernel.currentTask.posInDirCounter amount
  | _ => True

section Steps

variable {kernel after : SequenceKernel} {mmu written : Mmu}

theorem ForkOutcome.writesTables {outcome : SequenceKernel × Int}
    (forked : ForkOutcome kernel outcome) (covers : mmu.mm = kernel.core.mm) :
    ∃ written, kernel.writesTables .fork mmu = .ok written ∧
      written.mm.pagusrTable = outcome.1.core.mm.pagusrTable := by
  have copies : ∀ {mm allocated}, kernel.core.forkPages = .ok (mm, allocated) →
      ¬kernel.isEmpty .freequeue = true → ∃ written, kernel.writesTables .fork mmu = .ok written ∧
        written.mm.pagusrTable = mm.pagusrTable := by
    intro mm allocated copied some
    have taken : Mmu.Over (mmu.withMm mmu.mm.allocateDir.1) mmu.mm.allocateDir.1 := rfl
    have erases := Mmu.forkPages_erases (mmu.mm.freeSlot.getD kernel.currentTask.dirPagesBaseAddr)
      kernel.currentTask.dirPagesBaseAddr kernel.currentTask.posInDirCounter taken
    have plain : Mm.forkPages (mmu.mm.freeSlot.getD kernel.currentTask.dirPagesBaseAddr)
        kernel.currentTask.dirPagesBaseAddr kernel.currentTask.posInDirCounter
        mmu.mm.allocateDir.1 = .ok (mm, allocated) := by
      rw [covers]
      exact copied
    rcases erases.matched plain with ⟨⟨written, result⟩, forking, same, -⟩
    refine ⟨written, ?_, ?_⟩
    · unfold Kernel.writesTables
      dsimp only
      rw [if_neg some, forking]
      rfl
    · exact congrArg Mm.pagusrTable same
  cases forked with
  | full empty =>
      refine ⟨mmu, ?_, ?_⟩
      · unfold Kernel.writesTables
        dsimp only
        rw [if_pos (isEmpty_iff.mpr empty)]
      · rw [covers]
  | noMemory child rest free mm outOfFrames =>
      have kept : (kernel.forkFailed child mm).core.mm = mm := (Core.forkTo_frame _ _ _).1
      rw [kept]
      exact copies outOfFrames (by simp [free])
  | forked child rest free mm copied =>
      have kept : (kernel.forked child mm).core.mm = mm := by simp [Kernel.forked]
      rw [kept]
      exact copies copied (by simp [free])

theorem SbrkOutcome.writesTables {amount : Int} {outcome : SequenceKernel × Int}
    (moved : SbrkOutcome kernel amount outcome) (covers : mmu.mm = kernel.core.mm) :
    ∃ written, kernel.writesTables (.sbrk amount) mmu = .ok written ∧
      written.mm.pagusrTable = outcome.1.core.mm.pagusrTable := by
  have moves : ∀ {mm result}, kernel.core.mm.sbrk kernel.currentTask.dirPagesBaseAddr
      kernel.currentTask.posInDirCounter amount = .ok (mm, result) →
      ∃ written, kernel.writesTables (.sbrk amount) mmu = .ok written ∧
        written.mm.pagusrTable = mm.pagusrTable := by
    intro mm result plain
    rw [← covers] at plain
    have covered : Mmu.Over mmu mmu.mm := rfl
    have erases := Mmu.sbrk_erases kernel.currentTask.dirPagesBaseAddr
      kernel.currentTask.posInDirCounter amount covered
    rcases erases.matched plain with ⟨⟨written, last⟩, moving, same, -⟩
    refine ⟨written, ?_, ?_⟩
    · unfold Kernel.writesTables
      dsimp only
      rw [moving]
      rfl
    · exact congrArg Mm.pagusrTable same
  cases moved with
  | refused mm outcome => exact moves outcome
  | moved mm last outcome => exact moves outcome

theorem ExitOutcome.writesTables (disciplined : Disciplined kernel)
    (notIdle : kernel.core.current ≠ kernel.core.idleTask) (exited : ExitOutcome kernel after)
    (covers : mmu.mm = kernel.core.mm) :
    ∃ written, kernel.writesTables .exit mmu = .ok written ∧
      written.mm.pagusrTable = after.core.mm.pagusrTable := by
  rcases exited.removes disciplined notIdle with ⟨mm, freed, removed⟩
  have covered : Mmu.Over mmu mmu.mm := rfl
  have erases := Mmu.releaseDir_erases kernel.currentTask.dirPagesBaseAddr
    kernel.currentTask.posInDirCounter covered
  rw [← covers] at freed
  rcases erases.matched freed with ⟨written, releasing, same⟩
  refine ⟨written, releasing, ?_⟩
  have writtenMm : written.mm = mm := same
  rw [writtenMm]
  exact congrArg (fun view => view.mm.pagusrTable) removed.symm

theorem ProcessStep.sameTables {view later : Processes} {caller : TaskId} {event : Event}
    (step : ProcessStep view caller event later) (notFork : event ≠ .fork) (notExit : event ≠ .exit)
    (notSbrk : ∀ amount, event ≠ .sbrk amount) : later.mm.pagusrTable = view.mm.pagusrTable := by
  cases step with
  | keeps event later keeps full => rw [keeps.mm]
  | noMemory => exact absurd rfl notFork
  | forked => exact absurd rfl notFork
  | cloned => rfl
  | exited => exact absurd rfl notExit
  | moved amount => exact absurd rfl (notSbrk amount)

theorem Effect.writesTables (disciplined : Disciplined kernel) {event : Event}
    (effect : Effect kernel event after)
    (notIdle : event ≠ .resume → event.IsInterrupt = false →
      kernel.core.current ≠ kernel.core.idleTask) (covers : mmu.mm = kernel.core.mm) :
    ∃ written, kernel.writesTables event mmu = .ok written ∧
      written.mm.pagusrTable = after.core.mm.pagusrTable := by
  have step := effect.processStep disciplined notIdle
  cases event with
  | fork =>
      cases effect with
      | fork outcome =>
          rw [finishCall_mm]
          exact outcome.writesTables covers
  | exit =>
      cases effect with
      | exit outcome =>
          exact outcome.writesTables disciplined (notIdle Event.noConfusion rfl) covers
  | sbrk amount =>
      cases effect with
      | sbrk _ outcome =>
          rw [finishCall_mm]
          exact outcome.writesTables covers
  | _ =>
      have same := step.sameTables Event.noConfusion Event.noConfusion fun _ => Event.noConfusion
      exact ⟨mmu, rfl, (congrArg _ covers).trans same.symm⟩

theorem writesTables_coherent (guarded : kernel.core.mm.Guarded) {event : Event}
    (keeps : kernel.KeepsTlb event) (covers : mmu.mm = kernel.core.mm)
    (current : mmu.cr3 = kernel.currentTask.dirPagesBaseAddr) (coherent : mmu.Coherent)
    (stays : event = .exit → kernel.core.mm.dirCounter mmu.cr3 ≠ 1)
    (writes : kernel.writesTables event mmu = .ok written) :
    written.cr3 = mmu.cr3 ∧ written.Coherent := by
  have unchanged : written = mmu → written.cr3 = mmu.cr3 ∧ written.Coherent := by
    intro same
    subst same
    exact ⟨rfl, coherent⟩
  cases event with
  | fork =>
      unfold Kernel.writesTables at writes
      dsimp only at writes
      split at writes
      · exact unchanged (Except.ok.inj writes).symm
      · rename_i some
        rcases bind_eq_ok.mp writes with ⟨⟨forked, allocated⟩, forking, result⟩
        cases result
        have safe : Mmu.forkDemand mmu.mm kernel.currentTask.posInDirCounter ≤
            mmu.mm.available.card ∨
              mmu.mm.freeSlot.getD kernel.currentTask.dirPagesBaseAddr ≠
                kernel.currentTask.dirPagesBaseAddr ∨
              mmu.mm.Open kernel.currentTask.dirPagesBaseAddr := by
          rw [covers]
          rcases keeps with full | enough | other | code
          · exact absurd (isEmpty_iff.mpr full) some
          · exact .inl enough
          · exact .inr (.inl other)
          · exact .inr (.inr (guarded.isOpen code))
        rw [current]
        exact Mmu.fork_coherent current coherent safe forking
  | exit =>
      apply Mmu.releaseDir_coherent coherent _ writes
      rw [covers, ← current]
      exact stays rfl
  | sbrk amount =>
      rcases bind_eq_ok.mp writes with ⟨⟨moved, last⟩, moving, result⟩
      cases result
      rw [← current] at moving
      apply Mmu.sbrk_coherent coherent _ moving
      rw [covers, current]
      exact keeps
  | _ => exact unchanged (Except.ok.inj writes).symm

theorem Entry.writesTables {event : Event} {core : Core} (entry : Entry event kernel.core core)
    (call : Event) (mmu : Mmu) :
    Kernel.writesTables ⟨core, kernel.queues⟩ call mmu = kernel.writesTables call mmu := by
  have directory : (core.task core.current).dirPagesBaseAddr =
      kernel.currentTask.dirPagesBaseAddr := by
    rw [entry.task, entry.current]
    rfl
  have position : (core.task core.current).posInDirCounter =
      kernel.currentTask.posInDirCounter := by
    rw [entry.task, entry.current]
    rfl
  have current : Kernel.currentTask ⟨core, kernel.queues⟩ = core.task core.current := rfl
  unfold Kernel.writesTables
  rw [current]
  dsimp only
  rw [directory, position]
  rfl

theorem Kernel.Represents.writesTables {pointer : PointerKernel} {sequence : SequenceKernel}
    (represents : pointer.Represents sequence) (event : Event) (mmu : Mmu) :
    pointer.writesTables event mmu = sequence.writesTables event mmu := by
  unfold Kernel.writesTables
  rw [represents.currentTask, represents.isEmpty]

theorem ExitOutcome.successor (disciplined : Disciplined kernel)
    (notIdle : kernel.core.current ≠ kernel.core.idleTask) (exited : ExitOutcome kernel after) :
    kernel.Live after.core.current ∧ after.core.current ≠ kernel.core.current ∧
      (after.core.task after.core.current).dirPagesBaseAddr =
        (kernel.core.task after.core.current).dirPagesBaseAddr := by
  rcases exited.removes disciplined notIdle with ⟨mm, -, removed⟩
  have live : after.processes.live after.core.current := .inr (.inl rfl)
  rw [removed] at live
  have directories : after.processes.dirPagesBaseAddr = kernel.processes.dirPagesBaseAddr := by
    rw [removed]
    rfl
  exact ⟨live.1, live.2, congrFun directories _⟩

theorem step_successor {machine : Machine} (disciplined : Disciplined kernel)
    (step : (checkedZeos machine).step kernel .exit after) :
    kernel.Live after.core.current ∧ after.core.current ≠ kernel.core.current ∧
      (after.core.task after.core.current).dirPagesBaseAddr =
        (kernel.core.task after.core.current).dirPagesBaseAddr := by
  rcases step_effect disciplined step with ⟨core, entry, entered, notIdle, effect⟩
  cases effect with
  | exit outcome =>
      rcases outcome.successor entered (notIdle Event.noConfusion rfl) with
        ⟨live, different, directory⟩
      have same := congrFun (congrArg Processes.live (entry_processes entry)) after.core.current
      refine ⟨Eq.mp same live, ?_, ?_⟩
      · rw [← entry.current]
        exact different
      · rw [directory, entry.task]

end Steps

/-! ## Runs -/

section Runs

variable {machine : Machine} {before after : Paged} {event : Event}

theorem step_writesTables {kernel later : PointerKernel} (mirrored : Mirrored kernel) {mmu : Mmu}
    (covers : mmu.mm = kernel.core.mm) (step : (zeos machine).step kernel event later) :
    ∃ written, kernel.writesTables event mmu = .ok written ∧
      written.mm.pagusrTable = later.core.mm.pagusrTable := by
  rcases step_effect mirrored.disciplined (mirrored.step step).2 with
    ⟨core, entry, entered, notIdle, effect⟩
  have entryCovers : mmu.mm = core.mm := covers.trans entry.mm.symm
  rcases effect.writesTables entered notIdle entryCovers with ⟨written, writes, tables⟩
  rw [entry.writesTables] at writes
  rw [← mirrored.represents.writesTables] at writes
  exact ⟨written, writes, tables⟩

theorem paged_step (mirrored : Mirrored before.kernel)
    (step : (pagedZeos machine).step before event after) :
    ∃ written, before.kernel.toSequences.writesTables event before.mmu = .ok written ∧
      written.mm.pagusrTable = after.kernel.core.mm.pagusrTable ∧
      after.mmu = (written.switchDir before.dir after.dir).withMm after.kernel.core.mm := by
  rcases step with ⟨kernelStep, written, writes, result⟩
  have covers : before.mmu.mm = before.kernel.core.mm := rfl
  rcases step_writesTables mirrored covers kernelStep with ⟨other, otherWrites, tables⟩
  cases writes.symm.trans otherWrites
  rw [mirrored.represents.writesTables] at writes
  exact ⟨written, writes, tables, result⟩

/-- CR3 has the directory of the task on the processor, and the TLB is coherent. -/
structure Paged.Right (state : Paged) : Prop where
  current : state.cr3 = state.dir
  coherent : state.mmu.Coherent

theorem Paged.Right.step (mirrored : Mirrored before.kernel)
    (guarded : before.kernel.core.mm.Guarded) (right : before.Right)
    (keeps : before.kernel.toSequences.KeepsTlb event)
    (step : (pagedZeos machine).step before event after) : after.Right := by
  rcases paged_step mirrored step with ⟨written, writes, tables, result⟩
  have switched : (written.switchDir before.dir after.dir).cr3 = after.dir ∧
      (written.switchDir before.dir after.dir).Coherent := by
    apply Mmu.switchDir_coherent
    intro sameDir
    have stays : event = .exit → before.kernel.core.mm.dirCounter before.mmu.cr3 ≠ 1 := by
      intro isExit last
      subst isExit
      rcases step_successor mirrored.disciplined (mirrored.step step.1).2 with
        ⟨live, different, directory⟩
      have current : before.mmu.cr3 = before.dir := right.current
      rw [current] at last
      exact keeps last _ live different (directory.symm.trans sameDir.symm)
    have written := writesTables_coherent guarded keeps rfl right.current right.coherent stays
      writes
    exact ⟨written.1.trans right.current, written.2⟩
  have tables' : (written.switchDir before.dir after.dir).mm = written.mm := by
    unfold Mmu.switchDir
    split <;> rfl
  have finished := switched.2.sameTable (congrFun (tables.symm.trans (congrArg _ tables'.symm)) _)
  rw [← result] at finished
  refine ⟨?_, finished⟩
  rw [← switched.1]
  exact congrArg Mmu.cr3 result

theorem kernel_of_run {first last : Paged} {history : List (Transition Paged Event)}
    (run : (pagedZeos machine).Run first history last) :
    (zeos machine).Run first.kernel (history.map (Transition.map Paged.kernel)) last.kernel := by
  have mapped : True ∧ (zeos machine).Run first.kernel
      (history.map (Transition.map Paged.kernel)) last.kernel :=
    run.map trivial fun _ _ _ _ step => ⟨trivial, step.1⟩
  exact mapped.2

theorem paged_total (mirrored : Mirrored before.kernel) {kernel : PointerKernel}
    (step : (zeos machine).step before.kernel event kernel) :
    ∃ after, after.kernel = kernel ∧ (pagedZeos machine).step before event after := by
  have covers : before.mmu.mm = before.kernel.core.mm := rfl
  rcases step_writesTables mirrored covers step with ⟨written, writes, -⟩
  let finished := (written.switchDir before.dir kernel.currentTask.dirPagesBaseAddr).withMm
    kernel.core.mm
  exact ⟨⟨kernel, finished.cr3, finished.tlb⟩, rfl, step, written, writes, rfl⟩

theorem paged_of_run {first last : PointerKernel} {start : Paged}
    {history : List (Transition PointerKernel Event)} (mirrored : Mirrored first)
    (run : (zeos machine).Run first history last) (same : start.kernel = first) :
    ∃ pagedHistory pagedLast, (pagedZeos machine).Run start pagedHistory pagedLast ∧
      pagedHistory.map (Transition.map Paged.kernel) = history ∧ pagedLast.kernel = last := by
  have lifts : ∀ (before : Paged) event after, Mirrored before.kernel →
      (zeos machine).step before.kernel event after →
      ∃ next : Paged, next.kernel = after ∧ Mirrored next.kernel ∧
        (pagedZeos machine).step before event next := by
    intro before event after mirrored step
    rcases paged_total mirrored step with ⟨next, sameNext, pagedStep⟩
    subst sameNext
    exact ⟨next, rfl, (mirrored.step step).1, pagedStep⟩
  subst same
  rcases run.lift rfl mirrored lifts with
    ⟨pagedHistory, pagedLast, pagedRun, -, mapped, sameLast⟩
  exact ⟨pagedHistory, pagedLast, pagedRun, mapped, sameLast⟩

theorem right_of_run {history : List (Transition Paged Event)} {last : Paged}
    (reaches : (pagedZeos machine).Reaches history last)
    (keeps : ∀ transition ∈ history,
      transition.before.kernel.toSequences.KeepsTlb transition.label) : last.Right := by
  rcases reaches with ⟨first, start, run⟩
  let Kept (state : Paged) : Prop :=
    Mirrored state.kernel ∧ state.kernel.core.mm.Guarded ∧ state.Right
  have initially : Kept first := by
    have boot : first.kernel = ⟨machine.bootCore 0 1, bootLinks⟩ :=
      Except.ok.inj (start.1.symm.trans (boot_pointers machine))
    refine ⟨?_, ?_, ?_, ?_⟩
    · rw [boot]
      exact (mirrored_boot machine).1
    · rw [boot]
      exact boot_guarded machine
    · exact congrArg Mmu.cr3 start.2
    · rw [start.2]
      exact Mmu.setCr3_coherent _ _
  have kept : Kept last := by
    apply run.invariant initially
    rintro transition member step ⟨mirrored, guarded, right⟩
    rcases mirrored.step step.1 with ⟨mirroredAfter, sequenceStep⟩
    have moved := step_processes mirrored.disciplined sequenceStep
    exact ⟨mirroredAfter, moved.guarded guarded,
      right.step mirrored guarded (keeps transition member) step⟩
  exact kept.2.2

/-- Along a run whose steps leave no translation behind, the TLB holds only what is in
the page table of the task on the processor, as far as user pages are concerned. -/
theorem tlbCoherent {history : List (Transition Paged Event)} {last : Paged}
    (reaches : (pagedZeos machine).Reaches history last)
    (keeps : ∀ transition ∈ history,
      transition.before.kernel.toSequences.KeepsTlb transition.label) :
    ∀ page entry, pagLogInitCode ≤ page → last.tlb.held page entry →
      last.kernel.core.mm.pagusrTable last.kernel.currentTask.dirPagesBaseAddr page = entry := by
  have right := right_of_run reaches keeps
  intro page entry above holds
  have coherent := right.coherent page entry above holds
  have current : last.mmu.cr3 = last.dir := right.current
  rwa [Mmu.table, current] at coherent

def Paged.Filled (state : Paged) : Prop :=
  ∀ page, (state.mmu.table page).present = true → state.tlb.held page (state.mmu.table page)

theorem filled_after (step : (pagedZeos machine).step before event after) : after.Filled := by
  rcases step with ⟨-, written, -, result⟩
  intro page present
  have cached : after.tlb = after.mmu.tlb := rfl
  rw [cached]
  rw [result] at present ⊢
  exact .inr ⟨rfl, present⟩

theorem stale_after {amount : Int} (positive : 0 < amount) (filled : before.Filled)
    (sameDir : before.dir = after.dir) {page : Nat}
    (present : (before.mmu.table page).present = true)
    (step : (pagedZeos machine).step before (.sbrk amount) after) :
    after.tlb.held page (before.mmu.table page) := by
  rcases step with ⟨-, written, writes, result⟩
  rcases bind_eq_ok.mp writes with ⟨⟨moved, last⟩, moving, finished⟩
  cases finished
  have holds := Mmu.sbrk_held positive (filled page present) moving
  have cached : after.tlb = after.mmu.tlb := rfl
  rw [cached, result, Mmu.switchDir, if_pos sameDir]
  exact Mmu.withMm_held holds

end Runs

instance (kernel : SequenceKernel) : DecidablePred kernel.Live := fun t =>
  inferInstanceAs (Decidable (t = _ ∨ t = _ ∨ _))

instance (mm : Mm) (pt slot : DirSlot) (increment : Int) :
    Decidable (Mmu.GrowsUnmapped mm pt slot increment) :=
  inferInstanceAs (Decidable (_ → _ → _ → _ → ∀ i < _, _))

instance (kernel : SequenceKernel) : DecidablePred kernel.KeepsTlb
  | .fork => inferInstanceAs (Decidable (_ ∨ _ ∨ _ ∨ ∀ page, _ ≤ page → page < _ → _))
  | .exit => inferInstanceAs (Decidable (_ → ∀ _, _ → _ → _))
  | .sbrk _ => inferInstanceAs (Decidable (Mmu.GrowsUnmapped _ _ _ _))
  | .resume | .clock | .keyboard _ | .getpid | .gettime | .clone .. | .semInit .. | .semWait _
  | .semSignal _ | .semDestroy _ | .read .. | .write .. | .getStats .. | .niSyscall =>
      inferInstanceAs (Decidable True)

def Paged.fresh (kernel : PointerKernel) : Paged :=
  ⟨kernel, kernel.currentTask.dirPagesBaseAddr,
    .flush (kernel.core.mm.pagusrTable kernel.currentTask.dirPagesBaseAddr)⟩

theorem paged_of_reaches {machine : Machine} {history : List (Transition PointerKernel Event)}
    {last : PointerKernel} (reaches : (zeos machine).Reaches history last) :
    ∃ pagedHistory pagedLast, (pagedZeos machine).Reaches pagedHistory pagedLast ∧
      pagedHistory.map (Transition.map Paged.kernel) = history ∧ pagedLast.kernel = last := by
  rcases reaches with ⟨first, start, run⟩
  have mirrored : Mirrored first := reachable_mirrored ⟨[], first, start, .nil⟩
  have init : (pagedZeos machine).init (.fresh first) := ⟨start, rfl⟩
  have same : (Paged.fresh first).kernel = first := rfl
  rcases paged_of_run mirrored run same with ⟨pagedHistory, pagedLast, pagedRun, mapped, sameLast⟩
  exact ⟨pagedHistory, pagedLast, ⟨_, init, pagedRun⟩, mapped, sameLast⟩

/-- The heap grows and shrinks by whole pages, and grows again. -/
theorem tlbCoherent_pages :
    ∃ history last, (pagedZeos Machine.sample).Reaches history last ∧ history.length = 3 ∧
      ∀ page entry, pagLogInitCode ≤ page → last.tlb.held page entry →
        last.kernel.core.mm.pagusrTable last.kernel.currentTask.dirPagesBaseAddr page = entry := by
  have computed : (replay [.sbrk 8192, .sbrk (-4096), .sbrk 100]
      ⟨Machine.sample.bootCore 0 1, bootLinks⟩).any (fun run =>
        decide (run.1.length = 3) && run.1.all fun transition =>
          decide (transition.before.toSequences.KeepsTlb transition.label)) = true := by
    decide +kernel
  rcases reaches_of_replay computed with ⟨history, last, reaches, found⟩
  rw [Bool.and_eq_true, decide_eq_true_eq, List.all_eq_true] at found
  rcases paged_of_reaches reaches with ⟨pagedHistory, pagedLast, pagedReaches, mapped, -⟩
  subst mapped
  rw [List.length_map] at found
  refine ⟨pagedHistory, pagedLast, pagedReaches, found.1, tlbCoherent pagedReaches ?_⟩
  intro transition member
  exact of_decide_eq_true (found.2 _ (List.mem_map_of_mem member))

def Kernel.ownEntry (kernel : PointerKernel) (page : Nat) : PageTableEntry :=
  kernel.core.mm.pagusrTable kernel.currentTask.dirPagesBaseAddr page

/-- Shrinking below the start of the heap by a byte too much leaves its first page
mapped, and growing again maps it anew. -/
theorem tlbCoherent_stale :
    ∃ history last, (pagedZeos Machine.sample).Reaches history last ∧
      last.kernel.core.inKernel = false ∧ ∃ page entry, pagLogInitCode ≤ page ∧
        last.tlb.held page entry ∧
        last.kernel.core.mm.pagusrTable last.kernel.currentTask.dirPagesBaseAddr page ≠ entry := by
  have computed : (replay [.sbrk 4096, .sbrk (-4097), .sbrk 1]
      ⟨Machine.sample.bootCore 0 1, bootLinks⟩).any (fun run =>
        decide (run.1.length = 3) && passesAt 0 (fun first later =>
          passesAt 0 (fun second later => passesAt 0 (fun third _ =>
            first.before.toSequences.KeepsTlb first.label ∧
            second.before.toSequences.KeepsTlb second.label ∧
            third.label = .sbrk 1 ∧ run.2.core.inKernel = false ∧
            third.before.currentTask.dirPagesBaseAddr = run.2.currentTask.dirPagesBaseAddr ∧
            (third.before.ownEntry pagLogInitHeap).present = true ∧
            run.2.ownEntry pagLogInitHeap ≠ third.before.ownEntry pagLogInitHeap)
              later) later) run.1) = true := by
    decide +kernel
  rcases reaches_of_replay computed with ⟨history, last, reaches, found⟩
  rcases paged_of_reaches reaches with ⟨pagedHistory, pagedLast, pagedReaches, mapped, same⟩
  subst mapped same
  rw [Bool.and_eq_true, decide_eq_true_eq, List.length_map] at found
  rcases found with ⟨length, tested⟩
  rcases List.length_eq_three.mp length with ⟨first, second, third, shape⟩
  subst shape
  rcases of_decide_eq_true tested with
    ⟨keepsFirst, keepsSecond, label, userMode, sameDir, present, changed⟩
  have whole := pagedReaches
  rcases whole with ⟨start, init, run⟩
  rcases @TransitionSystem.Run.of_snoc _ _ _ _ _ [first, second] third run with
    ⟨earlier, step, -⟩
  rcases @TransitionSystem.Run.of_snoc _ _ _ _ _ [first] second earlier with ⟨-, stepBefore, -⟩
  have right : third.before.Right := by
    apply right_of_run ⟨start, init, earlier⟩
    intro transition member
    rcases List.mem_cons.mp member with isFirst | member
    · rw [isFirst]
      exact keepsFirst
    · rw [List.mem_singleton.mp member]
      exact keepsSecond
  have table :
      third.before.mmu.table pagLogInitHeap = third.before.kernel.ownEntry pagLogInitHeap :=
    congrArg (fun dir => third.before.mmu.mm.pagusrTable dir pagLogInitHeap) right.current
  have label : third.label = .sbrk 1 := label
  rw [label] at step
  have stale := stale_after Int.one_pos (filled_after stepBefore) sameDir
    (by rw [table]; exact present) step
  rw [table] at stale
  exact ⟨_, pagedLast, pagedReaches, userMode, pagLogInitHeap, _, by decide, stale, changed⟩

end Zeos
