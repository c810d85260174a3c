import Zeos.ForkFailure
import Zeos.MemoryRuns

/-! # A fork and the exit of its child

What is left when a forked child exits. The fork counts its pages from the break of
the father, the exit from what the slot of the child has for a break.
-/

namespace Zeos

open Foundation Kernel

namespace Mm

variable {mm forked later after : Mm} {child father slot : DirSlot} {frames : List Nat}

/-- A page of the child that the fork does not touch: the entry is that of the last
user of the slot. -/
def Inherited (mm : Mm) (child father slot : DirSlot) (page : Nat) : Prop :=
  pagLogInitHeap + mm.heapPages slot ≤ page ∧ page < totalPages ∧
    ¬(child = father ∧ page ∈ windowPages (mm.heapPages slot))

/-- When the exit of a child gives back what the fork took: the break in the child's
slot is below the end of the table and covers the father's heap, and of the inherited
pages those up to it are on no frame that is in use, and those behind it are absent. -/
structure ExitUndoes (mm : Mm) (child father slot : DirSlot) : Prop where
  inside : mm.programbreakTable child < heapLimit
  covered : mm.heapPages slot = 0 ∨
    pagLogInitHeap + mm.heapPages slot ≤ mm.programbreakTable child / pageSize + 1
  harmless : ∀ page, mm.Inherited child father slot page →
    page ≤ mm.programbreakTable child / pageSize →
    numPagKernel < mm.frameOf child page → mm.frameOf child page < totalPages →
    mm.physMem (mm.frameOf child page) = .freeFrame
  absent : ∀ page, mm.Inherited child father slot page →
    mm.programbreakTable child / pageSize < page → (mm.pagusrTable child page).present = false

structure Undone (mm after : Mm) (child : DirSlot) : Prop where
  physMem : after.physMem = mm.physMem
  dirCounter : after.dirCounter = mm.dirCounter
  absent : ∀ page, pagLogInitData ≤ page → page < totalPages →
    (after.pagusrTable child page).present = false

/-! ## The child's pages -/

section Child

theorem Forks.page_behind (forks : mm.Forks forked child father slot frames) {page : Nat}
    (behind : pagLogInitHeap + mm.heapPages slot ≤ page) (inside : page < totalPages) :
    forked.pagusrTable child page = .zero ∧ ¬mm.Inherited child father slot page ∨
      forked.pagusrTable child page = mm.pagusrTable child page ∧
        mm.Inherited child father slot page := by
  have sizes := memoryMap
  have entry := forks.table child page
  rw [if_neg fun fresh => Nat.not_lt.mpr behind (mem_forkedPages.mp fresh.2).2] at entry
  by_cases window : child = father ∧ page ∈ windowPages (mm.heapPages slot)
  · rw [if_pos window] at entry
    exact .inl ⟨entry, fun inherited => inherited.2.2 window⟩
  · rw [if_neg window, if_neg fun low => by have := low.2; omega] at entry
    exact .inr ⟨entry, behind, inside, window⟩

/-- The frames of the fork are behind pages that the exit releases when the break in the
child's slot covers the heap, and not otherwise. -/
theorem Forks.covered_iff (forks : mm.Forks forked child father slot frames)
    (programbreak : Nat) :
    (∀ frame ∈ frames, frame ∈ (exitPages programbreak).map (forked.frameOf child)) ↔
      mm.heapPages slot = 0 ∨
        pagLogInitHeap + mm.heapPages slot ≤ programbreak / pageSize + 1 := by
  have sizes := memoryMap
  have length := forks.length
  constructor
  · intro behind
    by_cases none : mm.heapPages slot = 0
    · exact .inl none
    · -- the last heap page is released, or one that comes after it
      have below : numPagData + mm.heapPages slot - 1 < frames.length := by omega
      rcases List.mem_map.mp (behind _ (List.getElem_mem below)) with ⟨page, exits, same⟩
      have last := (mem_exitPages.mp exits).2
      have lower := (mem_exitPages.mp exits).1
      apply Or.inr
      by_contra short
      have index : page - pagLogInitData < frames.length := by omega
      have here := (forks.page_frame index).1
      rw [Nat.add_sub_cancel' lower, same] at here
      have position := (List.Nodup.getElem_inj_iff forks.nodup).mp here
      omega
  · intro covers frame member
    rcases List.getElem_of_mem member with ⟨index, below, same⟩
    refine List.mem_map.mpr ⟨pagLogInitData + index, mem_exitPages.mpr ⟨by omega, by omega⟩, ?_⟩
    rw [(forks.page_frame below).1, same]

theorem Forks.harmless_iff (forks : mm.Forks forked child father slot frames)
    {programbreak : Nat} (inside : programbreak < heapLimit) :
    (∀ frame, frame ∉ frames → numPagKernel < frame → frame < totalPages →
        frame ∈ (exitPages programbreak).map (forked.frameOf child) →
        mm.physMem frame = .freeFrame) ↔
      ∀ page, mm.Inherited child father slot page → page ≤ programbreak / pageSize →
        numPagKernel < mm.frameOf child page → mm.frameOf child page < totalPages →
        mm.physMem (mm.frameOf child page) = .freeFrame := by
  have sizes := memoryMap
  have bounds := heapBounds
  have length := forks.length
  constructor
  · intro others page inherited upTo above below
    by_cases listed : mm.frameOf child page ∈ frames
    · exact (mem_available.mp (forks.members _ listed)).2.2.2
    · apply others _ listed above below
      rcases inherited with ⟨behind, within, notWindow⟩
      rcases forks.page_behind behind within with ⟨-, not⟩ | ⟨entry, -⟩
      · exact absurd ⟨behind, within, notWindow⟩ not
      · exact List.mem_map.mpr ⟨page, mem_exitPages.mpr ⟨by omega, .inr upTo⟩, frameOf_congr entry⟩
  · intro harmless frame fresh above below released
    rcases List.mem_map.mp released with ⟨page, exits, same⟩
    rcases mem_exitPages.mp exits with ⟨lower, upper⟩
    by_cases copied : page < pagLogInitHeap + mm.heapPages slot
    · have index : page - pagLogInitData < frames.length := by omega
      have here := (forks.page_frame index).1
      rw [Nat.add_sub_cancel' lower, same] at here
      exact absurd (here ▸ List.getElem_mem index) fresh
    · have within : page < totalPages := by
        simp only [sizes] at upper ⊢
        omega
      rcases forks.page_behind (Nat.not_lt.mp copied) within with ⟨zero, -⟩ | ⟨entry, inherited⟩
      · rw [frameOf, zero] at same
        have nothing : PageTableEntry.zero.pbaseAddr.toNat = 0 := by decide
        omega
      · rw [frameOf_congr entry] at same
        subst same
        exact harmless page inherited (by omega) above below

/-- Marks are as before the fork when its frames are given back, and no other frame
that was in use. -/
theorem Forks.physMem_iff (managed : mm.Managed)
    (forks : mm.Forks forked child father slot frames) {programbreak : Nat}
    (inside : programbreak < heapLimit) :
    (forked.unmapPages child (exitPages programbreak)).physMem = mm.physMem ↔
      (mm.heapPages slot = 0 ∨
        pagLogInitHeap + mm.heapPages slot ≤ programbreak / pageSize + 1) ∧
      ∀ page, mm.Inherited child father slot page → page ≤ programbreak / pageSize →
        numPagKernel < mm.frameOf child page → mm.frameOf child page < totalPages →
        mm.physMem (mm.frameOf child page) = .freeFrame := by
  have sizes := memoryMap
  have first := managed.first
  have proper : ∀ frame ∈ frames, numPagKernel < frame ∧ frame < totalPages ∧
      mm.physMem frame = .freeFrame := by
    intro frame listed
    rcases mem_available.mp (forks.members frame listed) with ⟨below, above, -, free⟩
    refine ⟨Nat.lt_of_le_of_ne above fun same => ?_, below, free⟩
    rw [← same, first] at free
    cases free
  have marks : ∀ frame, (forked.unmapPages child (exitPages programbreak)).physMem frame =
      if (numPagKernel < frame ∧ frame < totalPages) ∧
          frame ∈ (exitPages programbreak).map (forked.frameOf child) then .freeFrame
      else if frame ∈ frames then .usedFrame else mm.physMem frame := by
    intro frame
    have taken := congrFun forks.physMem frame
    change (if _ then _ else forked.physMem frame) = _
    rw [taken]
    rfl
  rw [← forks.covered_iff programbreak, ← forks.harmless_iff inside, funext_iff]
  constructor
  · intro same
    constructor
    · intro frame listed
      rcases proper frame listed with ⟨above, below, free⟩
      by_contra kept
      have used := (marks frame).symm.trans (same frame)
      rw [if_neg fun released => kept released.2, if_pos listed, free] at used
      cases used
    · intro frame _ above below released
      have freed := (marks frame).symm.trans (same frame)
      rw [if_pos ⟨⟨above, below⟩, released⟩] at freed
      exact freed.symm
  · rintro ⟨behind, harmless⟩ frame
    rw [marks]
    by_cases released : (numPagKernel < frame ∧ frame < totalPages) ∧
        frame ∈ (exitPages programbreak).map (forked.frameOf child)
    · rw [if_pos released]
      by_cases listed : frame ∈ frames
      · exact (proper frame listed).2.2.symm
      · exact (harmless frame listed released.1.1 released.1.2 released.2).symm
    · rw [if_neg released]
      by_cases listed : frame ∈ frames
      · rcases proper frame listed with ⟨above, below, -⟩
        exact absurd ⟨⟨above, below⟩, behind frame listed⟩ released
      · rw [if_neg listed]

theorem Forks.absent_iff (forks : mm.Forks forked child father slot frames) {programbreak : Nat}
    (covered : mm.heapPages slot = 0 ∨
      pagLogInitHeap + mm.heapPages slot ≤ programbreak / pageSize + 1) :
    (∀ page, pagLogInitData ≤ page → page < totalPages →
      ((forked.unmapPages child (exitPages programbreak)).pagusrTable child page).present =
        false) ↔
      ∀ page, mm.Inherited child father slot page → programbreak / pageSize < page →
        (mm.pagusrTable child page).present = false := by
  have sizes := memoryMap
  have behind : ∀ {page}, pagLogInitHeap ≤ page → programbreak / pageSize < page →
      pagLogInitHeap + mm.heapPages slot ≤ page := by
    intro page heap beyond
    omega
  have entry := unmapPages_table forked child (exitPages programbreak)
  constructor
  · intro absent page inherited beyond
    rcases inherited with ⟨lower, within, notWindow⟩
    have gone := absent page (by omega) within
    have kept : page ∉ exitPages programbreak := by
      intro exits
      have upper := (mem_exitPages.mp exits).2
      omega
    rw [entry, if_neg kept] at gone
    rcases forks.page_behind lower within with ⟨-, not⟩ | ⟨same, -⟩
    · exact absurd ⟨lower, within, notWindow⟩ not
    · rwa [same] at gone
  · intro absent page lower within
    rw [entry]
    split
    · rfl
    · rename_i kept
      rw [mem_exitPages, not_and, not_or] at kept
      rcases kept lower with ⟨heap, beyond⟩
      have copied := behind (show pagLogInitHeap ≤ page by omega) (by omega)
      rcases forks.page_behind copied within with ⟨zero, -⟩ | ⟨same, inherited⟩
      · rw [zero]
        rfl
      · rw [same]
        exact absent page inherited (by omega)

end Child

theorem Forks.undone_iff (managed : mm.Managed)
    (forks : mm.Forks forked child father slot frames) (found : mm.freeSlot = some child)
    (same : later = { forked with ram := later.ram }) :
    (∃ after, later.releaseDir child child = .ok after ∧ mm.Undone after child) ↔
      mm.ExitUndoes child father slot := by
  have breaks : later.programbreakTable child = mm.programbreakTable child := by
    rw [same]
    exact congrFun forks.programbreakTable child
  have counters : later.dirCounter = Function.update mm.dirCounter child 1 := by
    rw [same]
    exact forks.dirCounter.trans (congrArg Mm.dirCounter (allocateDir_some found))
  have one : later.dirCounter child = 1 := by
    rw [counters, Function.update_self]
  have breakSet : BreakSet later child := by
    have before := managed.breaks child
    rw [BreakSet, HeapBreak] at before ⊢
    rwa [breaks]
  let released := (later.uncount child).unmapPages child (exitPages (mm.programbreakTable child))
  have exits : ∀ after, later.releaseDir child child = .ok after ↔
      mm.programbreakTable child < heapLimit ∧ after = released := by
    intro after
    rw [releaseDir_eq_ok breakSet, if_pos one, breaks]
  have pages : released.physMem =
        (forked.unmapPages child (exitPages (mm.programbreakTable child))).physMem ∧
      released.pagusrTable =
        (forked.unmapPages child (exitPages (mm.programbreakTable child))).pagusrTable := by
    change ((later.uncount child).unmapPages child _).physMem = _ ∧
      ((later.uncount child).unmapPages child _).pagusrTable = _
    rw [same]
    exact ⟨rfl, rfl⟩
  have counted : released.dirCounter = mm.dirCounter := by
    change Function.update later.dirCounter child (later.dirCounter child - 1) = _
    rw [one, counters, Function.update_idem, Int.sub_self, ← freeSlot_some found,
      Function.update_eq_self]
  constructor
  · rintro ⟨after, exited, undone⟩
    rcases (exits after).mp exited with ⟨inside, here⟩
    subst here
    have marks := undone.physMem
    rw [pages.1] at marks
    rcases (forks.physMem_iff managed inside).mp marks with ⟨covered, harmless⟩
    refine ⟨inside, covered, harmless, (forks.absent_iff covered).mp ?_⟩
    rw [← pages.2]
    exact undone.absent
  · intro undoes
    refine ⟨released, (exits _).mpr ⟨undoes.inside, rfl⟩, ?_, counted, ?_⟩
    · rw [pages.1]
      exact (forks.physMem_iff managed undoes.inside).mpr ⟨undoes.covered, undoes.harmless⟩
    · rw [pages.2]
      exact (forks.absent_iff undoes.covered).mpr undoes.absent

theorem not_undone (missing : mm.freeSlot = none)
    (counters : later.dirCounter = mm.allocateDir.1.dirCounter)
    (released : later.releaseDir father father = .ok after) : ¬mm.Undone after father := by
  intro undone
  have counted := congrFun (releaseDir_counters released).1 father
  rw [undone.dirCounter, Function.update_self, counters, allocateDir_none missing] at counted
  omega

end Mm

/-! ## Steps of an exit -/

section Steps

variable {machine : Machine} {before after : SequenceKernel}

theorem quiet_keeps {history : List Recorded} (disciplined : Disciplined before)
    (run : (checkedZeos machine).Run before history after)
    (quiet : ∀ transition ∈ history, transition.label.ManagesMemory = false) :
    Disciplined after ∧ before.processes.Keeps after.processes := by
  apply run.invariant (⟨disciplined, .refl _⟩ : Disciplined before ∧ _)
  rintro ⟨middle, event, later⟩ member step ⟨disciplined, keeps⟩
  have mild := quiet _ member
  refine ⟨execute_disciplined disciplined step.1 step.2, ?_⟩
  have moved := step_processes disciplined step
  dsimp only at moved mild ⊢
  generalize later.processes = next at moved ⊢
  cases moved with
  | keeps _ _ kept => exact keeps.trans kept
  | noMemory => cases mild
  | forked => cases mild
  | cloned => cases mild
  | exited => cases mild
  | moved => cases mild

theorem exit_steps (disciplined : Disciplined before) (enabled : Event.exit.Enabled before.core)
    {mm : Mm} (freed : before.processes.mm.releaseDir
      (before.processes.dirPagesBaseAddr before.core.current)
      (before.processes.posInDirCounter before.core.current) = .ok mm) :
    ∃ after, (checkedZeos machine).step before .exit after := by
  have entered : Disciplined ⟨before.core.enterSystem, before.queues⟩ :=
    disciplined.sameButStats (.charge _ _)
  have same : Kernel.processes ⟨before.core.enterSystem, before.queues⟩ = before.processes :=
    sameButStats_processes (.charge _ _)
  rcases sysExit_eq entered with ⟨released, -, exits⟩
  have memory : before.core.enterSystem.mm.releaseDir
      (before.core.enterSystem.task before.core.current).dirPagesBaseAddr
      (before.core.enterSystem.task before.core.current).posInDirCounter = .ok mm := by
    change (Kernel.processes ⟨before.core.enterSystem, before.queues⟩).mm.releaseDir
      ((Kernel.processes ⟨before.core.enterSystem, before.queues⟩).dirPagesBaseAddr _)
      ((Kernel.processes ⟨before.core.enterSystem, before.queues⟩).posInDirCounter _) = _
    rw [same]
    exact freed
  refine ⟨finishCall (released.retire mm, none), enabled, ?_⟩
  change (Kernel.sysExit ⟨before.core.enterSystem, before.queues⟩ >>= fun k =>
    Except.ok (k, none)) >>= (fun outcome => Except.ok (finishCall outcome)) = _
  rw [exits, currentTask]
  change ((before.core.enterSystem.mm.releaseDir
    (before.core.enterSystem.task before.core.current).dirPagesBaseAddr
    (before.core.enterSystem.task before.core.current).posInDirCounter >>= _) >>= _) >>= _ = _
  rw [memory]
  rfl

end Steps

/-- The child exits, and memory and the free task structures are as before the fork. -/
def ExitUndoes (machine : Machine) (before middle : PointerKernel) : Prop :=
  ∃ after, (zeos machine).step middle .exit after ∧
    before.core.mm.Undone after.core.mm middle.currentTask.dirPagesBaseAddr ∧
    ∀ t, t ∈ after.toSequences.queues.elements .freequeue ↔
      t ∈ before.toSequences.queues.elements .freequeue

/-- `child` has been forked and has the processor, and no other call on memory was made
in between. -/
structure ChildToExit (machine : Machine) (before middle : PointerKernel) (child : TaskId) :
    Prop where
  fresh : ¬before.toSequences.Live child
  forks : ∃ forked between, (zeos machine).step before .fork forked ∧
    forked.toSequences.Live child ∧ (zeos machine).Run forked between middle ∧
    ∀ transition ∈ between, transition.label.ManagesMemory = false
  turn : middle.core.current = child
  enabled : Event.exit.Enabled middle.core

/-- The fork gave the child a directory, and the exit gives back what the fork took. -/
def ForkUndoable (kernel : PointerKernel) : Prop :=
  ∃ slot, kernel.core.mm.freeSlot = some slot ∧
    kernel.core.mm.ExitUndoes slot kernel.currentTask.dirPagesBaseAddr
      kernel.currentTask.posInDirCounter

theorem exitUndoes_iff {machine : Machine} {before middle : PointerKernel} {child : TaskId}
    {rest : List TaskId} (mirrored : Mirrored middle)
    (free : before.toSequences.processes.freequeue = child :: rest)
    (left : middle.toSequences.processes.freequeue = rest) (turn : middle.core.current = child)
    (enabled : Event.exit.Enabled middle.core) :
    ExitUndoes machine before middle ↔
      ∃ mm, middle.core.mm.releaseDir middle.currentTask.dirPagesBaseAddr
          middle.currentTask.posInDirCounter = .ok mm ∧
        before.core.mm.Undone mm middle.currentTask.dirPagesBaseAddr := by
  constructor
  · rintro ⟨after, step, undone, -⟩
    have executed := ((mirrored.execute step.1).1 after step.2).2
    rcases @exit_removes machine _ _ mirrored.disciplined ⟨step.1, executed⟩ with
      ⟨mm, released, removed⟩
    have memory : after.core.mm = mm := congrArg Processes.mm removed
    rw [memory] at undone
    exact ⟨mm, released, undone⟩
  · rintro ⟨mm, released, undone⟩
    rcases @exit_steps machine _ mirrored.disciplined enabled _ released with ⟨sequence, step⟩
    rcases @exit_removes machine _ _ mirrored.disciplined step with ⟨other, again, removed⟩
    have same : mm = other := Except.ok.inj (released.symm.trans again)
    subst same
    rcases mirrored.executes step.1 step.2 with ⟨after, executed, same⟩
    subst same
    have memory : after.core.mm = mm := congrArg Processes.mm removed
    refine ⟨after, ⟨enabled, executed⟩, by rwa [memory], fun t => ?_⟩
    have queue : after.toSequences.processes.freequeue = rest ++ [child] := by
      rw [removed, ← left, ← turn]
      rfl
    change t ∈ after.toSequences.processes.freequeue ↔ t ∈ before.toSequences.processes.freequeue
    rw [queue, free, List.mem_append, List.mem_singleton, List.mem_cons, or_comm]

section Exit

variable {machine : Machine} {before middle : PointerKernel} {child : TaskId}

theorem exitUndoes_iff_forkUndoable (mirrored : Mirrored before)
    (managed : before.core.mm.Managed) (reserved : before.toSequences.processes.Reserved)
    (comes : ChildToExit machine before middle child) :
    ExitUndoes machine before middle ↔ ForkUndoable before := by
  rcases comes with ⟨fresh, ⟨forked, between, fork, born, run, quiet⟩, turn, enabled⟩
  rcases (mirrored.execute fork.1).1 forked fork.2 with ⟨mirroredFork, executed⟩
  rcases @fork_creates machine child _ _ mirrored.disciplined ⟨fork.1, executed⟩ fresh born with
    ⟨rest, mm, free, copied, created⟩
  rcases mirroredFork.run run with ⟨mirroredMiddle, recorded⟩
  have still : ∀ transition ∈ record between, transition.label.ManagesMemory = false := by
    intro transition member
    rcases List.mem_map.mp member with ⟨original, listed, same⟩
    rw [← same]
    exact quiet original listed
  rcases quiet_keeps mirroredFork.disciplined recorded still with ⟨-, keeps⟩
  rw [created] at keeps
  -- the child has the directory the fork gave it, which is its father's when none was free
  rcases reserved.fork mirrored.disciplined.sound copied with
    ⟨-, counters, paired, -⟩
  have position : middle.currentTask.posInDirCounter =
      before.toSequences.processes.newSlot before.currentTask.posInDirCounter := by
    have here := congrFun keeps.posInDirCounter middle.core.current
    rw [turn] at here
    rw [currentTask, turn]
    exact here.trans (Function.update_self _ _ _)
  have directory : middle.currentTask.dirPagesBaseAddr =
      before.toSequences.processes.newSlot before.currentTask.posInDirCounter := by
    have here := congrFun keeps.dirPagesBaseAddr middle.core.current
    rw [turn] at here
    rw [currentTask, turn]
    exact (here.trans (Function.update_self _ _ _)).trans paired
  rw [exitUndoes_iff mirroredMiddle free keeps.freequeue turn enabled, directory, position]
  rw [Processes.forkPages, paired] at copied
  change before.core.mm.allocateDir.1.forkPages
    (before.toSequences.processes.newSlot before.currentTask.posInDirCounter)
    before.currentTask.dirPagesBaseAddr before.currentTask.posInDirCounter = .ok (mm, true)
    at copied
  cases found : before.core.mm.freeSlot with
  | none =>
      have father : before.toSequences.processes.newSlot before.currentTask.posInDirCounter =
          before.currentTask.posInDirCounter := by
        change before.core.mm.freeSlot.getD _ = _
        rw [found]
        rfl
      rw [father]
      apply iff_of_false
      · rintro ⟨after, released, undone⟩
        refine Mm.not_undone found ?_ released undone
        rw [show middle.core.mm = _ from keeps.mm]
        exact counters
      · rintro ⟨slot, free, -⟩
        rw [found] at free
        cases free
  | some slot =>
      have child : before.toSequences.processes.newSlot before.currentTask.posInDirCounter =
          slot := by
        change before.core.mm.freeSlot.getD _ = _
        rw [found]
        rfl
      rw [child] at copied ⊢
      rcases managed.forks copied with ⟨frames, forks, -⟩
      have kept : middle.core.mm = { mm with ram := middle.core.mm.ram } := keeps.mm
      rw [forks.undone_iff managed found kept]
      constructor
      · intro undoes
        exact ⟨slot, found, undoes⟩
      · rintro ⟨other, same, undoes⟩
        rw [found] at same
        cases same
        exact undoes

theorem childToExit_of_sequences {forked last : SequenceKernel} {between : List Recorded}
    (mirrored : Mirrored before) (fresh : ¬before.toSequences.Live child)
    (fork : (checkedZeos machine).step before.toSequences .fork forked) (born : forked.Live child)
    (run : (checkedZeos machine).Run forked between last)
    (quiet : ∀ transition ∈ between, transition.label.ManagesMemory = false)
    (turn : last.core.current = child) (enabled : Event.exit.Enabled last.core) :
    ∃ middle, ChildToExit machine before middle child ∧ middle.toSequences = last := by
  rcases mirrored.executes fork.1 fork.2 with ⟨pointer, executed, same⟩
  subst same
  have there := ((mirrored.execute fork.1).1 pointer executed).1
  rcases there.runs run with ⟨pointers, middle, pointerRun, recorded, same⟩
  subst same recorded
  refine ⟨middle, ⟨fresh, ⟨pointer, pointers, ⟨fork.1, executed⟩, born, pointerRun, ?_⟩, turn,
    enabled⟩, rfl⟩
  intro transition member
  exact quiet (transition.map toSequences) (List.mem_map_of_mem member)

end Exit

/-- A fork and the exit of its child, with no other call on memory in between, cancel
out exactly when the break in the child's slot happens to cover the father's heap and
no inherited page gets in the way. -/
theorem exitUndoesFork {machine : Machine} {before middle : PointerKernel} {child : TaskId}
    (reachable : (zeos machine).Reachable before)
    (comes : ChildToExit machine before middle child) :
    ExitUndoes machine before middle ↔ ForkUndoable before := by
  rcases reachable with ⟨history, reaches⟩
  rcases run_toSequences reaches with ⟨mirrored, sequences⟩
  exact exitUndoes_iff_forkUndoable mirrored (reachable_managed sequences)
    (reachable_reserved sequences) comes

/-! ## The child of the first process -/

theorem quiet_of_labels {history : List Recorded}
    (labels : history.map (fun transition => transition.label) =
      [.semInit 0 0, .semWait 0, .resume]) :
    ∀ transition ∈ history, transition.label.ManagesMemory = false := by
  intro transition member
  have listed : transition.label ∈ history.map fun transition => transition.label :=
    List.mem_map_of_mem member
  rw [labels] at listed
  have quiet : ∀ event ∈ [Event.semInit 0 0, .semWait 0, .resume],
      event.ManagesMemory = false := by decide
  exact quiet _ listed

theorem boot_exitUndoes (machine : Machine) :
    Mm.ExitUndoes (machine.bootCore 0 1).mm 3 2 2 := by
  have sizes := memoryMap
  have unset : (machine.bootCore 0 1).mm.programbreakTable 3 = 0 := boot_programbreak machine 3
  refine ⟨?_, .inl (boot_heapPages machine), ?_, ?_⟩
  · rw [unset]
    decide
  · intro page inherited upTo
    have above := inherited.1
    rw [unset, Nat.zero_div] at upTo
    omega
  · intro page inherited _
    have above := inherited.1
    rw [boot_unmapped machine 3 (by omega)]
    rfl

theorem exitUndoesFork_boot :
    ∃ before middle, (zeos Machine.sample).Reachable before ∧
      ChildToExit Machine.sample before middle 2 ∧ ExitUndoes Machine.sample before middle := by
  rcases mirrored_boot Machine.sample with ⟨mirrored, sequences⟩
  rcases boot_forks with ⟨frames, -, fork⟩
  rcases forkedAtBoot_child ((Machine.sample.bootCore 0 1).mm.allocateDir.1.forkCopied 3 2 2 frames)
    with ⟨between, last, run, labels, -, current, userMode, idleTask, -, -⟩
  rw [← sequences] at fork
  have fresh : ¬Kernel.Live (Kernel.toSequences ⟨Machine.sample.bootCore 0 1, bootLinks⟩) 2 := by
    rw [sequences]
    exact fun live => absurd (boot_live live) (by decide)
  have born : Kernel.Live (forkedAtBoot
      ((Machine.sample.bootCore 0 1).mm.allocateDir.1.forkCopied 3 2 2 frames)) 2 :=
    .inr (.inr ProcessState.noConfusion)
  have enabled : Event.exit.Enabled last.core :=
    Event.enabled_call trivial Event.noConfusion userMode (by rw [current, idleTask]; decide)
  rcases childToExit_of_sequences mirrored fresh fork born run (quiet_of_labels labels) current
    enabled with ⟨middle, comes, -⟩
  refine ⟨_, middle, ⟨[], _, boot_pointers Machine.sample, .nil⟩, comes, ?_⟩
  apply (exitUndoesFork ⟨[], _, boot_pointers Machine.sample, .nil⟩ comes).mpr
  exact ⟨3, boot_freeSlot Machine.sample, boot_exitUndoes Machine.sample⟩

/-! ## A heap page -/

def grownForked (mm after : Mm) : SequenceKernel :=
  finishCall (Kernel.forked ⟨(grownAtBoot mm).core.enterSystem, (grownAtBoot mm).queues⟩ 2 after,
    some 2)

theorem grownForked_child {mm : Mm} (after : Mm)
    (counters : mm.dirCounter = fun slot => if slot.val ≤ 2 then 1 else 0) :
    ∃ history last, (checkedZeos Machine.sample).Run (grownForked mm after) history last ∧
      history.map (fun transition => transition.label) = [.semInit 0 0, .semWait 0, .resume] ∧
      last.core.mm = after ∧ last.core.current = 2 ∧ last.core.inKernel = false ∧
      last.core.idleTask = 0 ∧ (grownForked mm after).Live 2 := by
  cases mm with
  | mk physMem table dirCounter breaks ram =>
      dsimp only at counters
      subst counters
      have notIdle : (1 : TaskId) ≠ 0 := by decide
      refine ⟨_, _, .snoc (.snoc (.snoc .nil ⟨?_, rfl⟩) ⟨?_, rfl⟩) ⟨?_, rfl⟩,
        show [Event.semInit 0 0, .semWait 0, .resume] = _ from rfl, rfl, rfl, rfl, rfl,
        .inr (.inr ProcessState.noConfusion)⟩
      · exact Event.enabled_call (by decide) Event.noConfusion rfl notIdle
      · exact Event.enabled_call (by decide) Event.noConfusion rfl notIdle
      · exact ⟨trivial, rfl⟩

theorem grownAtBoot_forks {mm : Mm} {pages : Nat} (few : pages ≤ 168)
    (disciplined : Disciplined (grownAtBoot mm)) (found : mm.freeSlot = some 3)
    (heap : Mm.HeapBreak mm 2) (mapped : mm.Readable 2 2) (heapPages : mm.heapPages 2 = pages)
    (available : mm.available.card = 356 - pages) :
    ∃ after, (checkedZeos Machine.sample).step (grownAtBoot mm) .fork (grownForked mm after) := by
  have sizes := memoryMap
  rcases grownAtBoot_core mm with ⟨-, directory, slot, free⟩
  have fits : pagLogInitHeap + mm.heapPages 2 + (numPagData + mm.heapPages 2) ≤ totalPages := by
    omega
  have enough : numPagData + mm.heapPages 2 ≤ mm.available.card := by omega
  rcases Core.forkPages_copied directory slot found heap fits mapped enough with
    ⟨taken, -, copied⟩
  have enabled : Event.fork.Enabled (grownAtBoot mm).core :=
    Event.enabled_call trivial Event.noConfusion rfl (show (1 : TaskId) ≠ 0 by decide)
  have numbers : (grownAtBoot mm).core.globalPID < 2147483647 := show (2 : Int) < _ by decide
  exact ⟨_, fork_step enabled (sysFork_copied disciplined free copied numbers)⟩

/-- With one heap page in the father, the exit of the child leaves a frame behind. -/
theorem exitUndoesFork_heap :
    ∃ before middle, (zeos Machine.sample).Reachable before ∧
      ChildToExit Machine.sample before middle 2 ∧ ¬ExitUndoes Machine.sample before middle := by
  have sizes := memoryMap
  rcases @boot_grows 1 (by decide) with ⟨frames, ⟨length, nodup, members⟩, grows, -⟩
  have start : (checkedZeos Machine.sample).Reaches _
      (grownAtBoot (Machine.sample.grownMm frames)) :=
    ⟨_, boot_sequences Machine.sample, .single grows⟩
  have counters : (Machine.sample.grownMm frames).dirCounter = _ :=
    funext (boot_dirCounter Machine.sample)
  rcases grownAtBoot_forks (by omega) (reachable_disciplined ⟨_, start⟩)
    (boot_freeSlot Machine.sample) (grownMm_heapBreak (by omega)) (grownMm_readable (by omega))
    (grownMm_heapPages frames) (grownMm_available nodup members) with ⟨after, fork⟩
  rcases grownForked_child after counters with
    ⟨between, last, run, labels, -, current, userMode, idleTask, born⟩
  rcases reaches_of_sequences start with ⟨history, before, reaches, -, same⟩
  rcases run_toSequences reaches with ⟨mirrored, sequences⟩
  rw [← same] at fork
  have fresh : ¬before.toSequences.Live 2 := by
    intro live
    have absent := mirrored.disciplined.live_not_free live
    rw [same, (grownAtBoot_core _).2.2.2] at absent
    exact absent (by decide)
  have enabled : Event.exit.Enabled last.core :=
    Event.enabled_call trivial Event.noConfusion userMode (by rw [current, idleTask]; decide)
  rcases childToExit_of_sequences mirrored fresh fork born run (quiet_of_labels labels) current
    enabled with ⟨middle, comes, -⟩
  refine ⟨before, middle, ⟨history, reaches⟩, comes, fun undoes => ?_⟩
  rcases (exitUndoes_iff_forkUndoable mirrored (reachable_managed sequences)
    (reachable_reserved sequences) comes).mp undoes with ⟨slot, found, undoable⟩
  rcases grownAtBoot_core (Machine.sample.grownMm frames) with ⟨memory, -, position, -⟩
  rw [← same] at memory position
  change before.core.mm = _ at memory
  change before.currentTask.posInDirCounter = 2 at position
  have free : (Machine.sample.grownMm frames).freeSlot = some 3 := boot_freeSlot Machine.sample
  rw [memory, free] at found
  cases found
  have covered := undoable.covered
  rw [memory, position, grownMm_heapPages, length, grownMm_unset frames (by decide),
    Nat.zero_div] at covered
  omega

end Zeos
