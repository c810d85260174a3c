import Zeos.MemoryCalls

/-! # The reach of a fork

When `sys_fork` stays inside the page tables. The window slides over the pages
behind the father's heap, as many as are copied, and a child never gets a break.
-/

namespace Zeos

open Foundation Kernel

namespace Mm

variable {mm after : Mm} {child father slot : DirSlot}

/-- What memory must be like for a fork to stay inside: the father's break has been
set, and either there are too few frames, or the window ends within the table and
the pages that are copied are mapped. In the father's own directory they are mapped
as they are copied. -/
def ForksInside (mm : Mm) (father slot : DirSlot) : Prop :=
  mm.programbreakTable slot ≠ 0 ∧
    (mm.available.card < numPagData + mm.heapPages slot ∨
      pagLogInitHeap + mm.heapPages slot + (numPagData + mm.heapPages slot) ≤ totalPages ∧
        (mm.freeSlot.getD father = father ∨ mm.Readable father slot))

theorem BreakSet.heapBreak (breakSet : BreakSet mm slot) (set : mm.programbreakTable slot ≠ 0) :
    HeapBreak mm slot :=
  breakSet.resolve_left set

theorem HeapBreak.set (heap : HeapBreak mm slot) : mm.programbreakTable slot ≠ 0 := by
  have bounds := heapBounds
  have lower := heap.1
  omega

theorem allocFrames_of_enough {count : Nat} (enough : count ≤ mm.available.card) :
    ∃ frames, allocFrames count mm [] = (mm.mark frames .usedFrame, some frames) := by
  have found := (allocFrames_isSome count mm []).mpr enough
  cases allocation : allocFrames count mm [] with
  | mk after result =>
      rw [allocation] at found
      cases result with
      | none => cases found
      | some frames =>
          rcases allocFrames_some allocation with ⟨fresh, same, -, -, -, marked⟩
          rw [List.nil_append] at same
          subst same marked
          exact ⟨frames, rfl⟩

theorem forkPages_returns (managed : mm.Managed) :
    (∃ outcome, forkPages child father slot mm = .ok outcome) ↔
      mm.programbreakTable slot ≠ 0 ∧
        (mm.available.card < numPagData + mm.heapPages slot ∨
          pagLogInitHeap + mm.heapPages slot + (numPagData + mm.heapPages slot) ≤ totalPages ∧
            (child = father ∨ mm.Readable father slot)) := by
  constructor
  · rintro ⟨⟨after, enough⟩, forked⟩
    have heap := managed.heapBreak forked
    apply And.intro heap.set
    cases enough with
    | false => exact .inl ((forkPages_false heap managed.first).mp forked).1
    | true =>
        rcases (forkPages_true heap).mp forked with ⟨frames, -, fits, readable, -⟩
        exact .inr ⟨fits, readable⟩
  · rintro ⟨set, few | ⟨fits, readable⟩⟩
    · have heap := (managed.breaks slot).heapBreak set
      exact ⟨_, (forkPages_false heap managed.first).mpr ⟨few, rfl⟩⟩
    · have heap := (managed.breaks slot).heapBreak set
      by_cases few : mm.available.card < numPagData + mm.heapPages slot
      · exact ⟨_, (forkPages_false heap managed.first).mpr ⟨few, rfl⟩⟩
      · rcases allocFrames_of_enough (Nat.not_lt.mp few) with ⟨frames, found⟩
        exact ⟨_, (forkPages_true heap).mpr ⟨frames, found, fits, readable, rfl⟩⟩

theorem forksInside_iff (managed : mm.Managed) :
    mm.ForksInside father slot ↔
      ∃ outcome,
        mm.allocateDir.1.forkPages (mm.freeSlot.getD father) father slot = .ok outcome := by
  have taken : mm.allocateDir.1.Managed := by
    rw [allocateDir_eq]
    exact managed.withCounters _
  rw [forkPages_returns taken, allocateDir_eq]
  exact .rfl

/-! ## What a fork does to memory -/

/-- What a fork that succeeds does to memory, apart from the contents of frames. -/
structure Forks (mm after : Mm) (child father slot : DirSlot) (frames : List Nat) : Prop where
  heap : HeapBreak mm slot
  fits : pagLogInitHeap + mm.heapPages slot + (numPagData + mm.heapPages slot) ≤ totalPages
  length : frames.length = numPagData + mm.heapPages slot
  nodup : frames.Nodup
  members : ∀ frame ∈ frames, frame ∈ mm.available
  lowest : frames.toFinset = lowest mm.available (numPagData + mm.heapPages slot)
  dirCounter : after.dirCounter = mm.allocateDir.1.dirCounter
  physMem : after.physMem = (mm.mark frames .usedFrame).physMem
  programbreakTable : after.programbreakTable = mm.programbreakTable
  table : ∀ pt page, after.pagusrTable pt page =
    if pt = child ∧ page ∈ forkedPages (mm.heapPages slot) then
      userEntry (frames.getD (page - pagLogInitData) 0)
    else if pt = father ∧ page ∈ windowPages (mm.heapPages slot) then .zero
    else if pt = child ∧ page < pagLogInitData then userEntry (mm.frameOf father page)
    else mm.pagusrTable pt page

theorem Managed.forks (managed : mm.Managed)
    (forked : mm.allocateDir.1.forkPages child father slot = .ok (after, true)) :
    ∃ frames, mm.Forks after child father slot frames ∧
      after = mm.allocateDir.1.forkCopied child father slot frames := by
  have same := mm.allocateDir_eq
  have taken : mm.allocateDir.1.Managed := by
    rw [same]
    exact managed.withCounters _
  generalize allocated : mm.allocateDir.1 = middle at same taken forked ⊢
  have heap := taken.heapBreak forked
  rcases (forkPages_true heap).mp forked with ⟨frames, found, fits, -, copied⟩
  rcases allocFrames_members found with ⟨length, nodup, members⟩
  rcases allocFrames_lowest found with ⟨fresh, appended, lowest⟩
  rw [List.nil_append] at appended
  subst appended
  rcases forkCopied_rest middle child father slot frames with ⟨physMem, dirCounter, breaks⟩
  have table := forkCopied_table middle child father slot frames
  rw [← copied] at physMem dirCounter breaks table
  have pages : middle.heapPages slot = mm.heapPages slot := by
    rw [same]
    rfl
  have available : middle.available = mm.available := by
    rw [same]
    rfl
  rw [pages] at fits length lowest
  rw [available] at members lowest
  refine ⟨frames, ⟨?_, fits, length, nodup, members, lowest, ?_, ?_, ?_, ?_⟩, copied⟩
  · rw [same] at heap
    exact heap
  · rw [dirCounter, allocated]
  · rw [physMem, same]
    rfl
  · rw [breaks, same]
  · intro pt page
    rw [table pt page, pages, same]
    rfl

theorem Forks.enough {frames : List Nat} (forks : mm.Forks after child father slot frames) :
    numPagData + mm.heapPages slot ≤ mm.available.card := by
  rw [← forks.length, ← List.toFinset_card_of_nodup forks.nodup]
  exact Finset.card_le_card fun frame listed => forks.members frame (List.mem_toFinset.mp listed)

theorem Forks.page_frame {frames : List Nat}
    (forks : mm.Forks after child father slot frames) {index : Nat}
    (below : index < frames.length) :
    after.frameOf child (pagLogInitData + index) = frames[index] ∧
      (after.pagusrTable child (pagLogInitData + index)).present = true := by
  have sizes := memoryMap
  have length := forks.length
  have member := forks.members _ (List.getElem_mem below)
  have listed : pagLogInitData + index ∈ forkedPages (mm.heapPages slot) :=
    mem_forkedPages.mpr ⟨by omega, by omega⟩
  have entry := forks.table child (pagLogInitData + index)
  rw [if_pos ⟨rfl, listed⟩, Nat.add_sub_cancel_left, List.getD_eq_getElem _ _ below] at entry
  rw [frameOf, entry, userEntry_toNat (mem_available.mp member).1]
  exact ⟨rfl, rfl⟩

structure ForkFails (mm after : Mm) (child father slot : DirSlot) : Prop where
  heap : HeapBreak mm slot
  few : mm.available.card < numPagData + mm.heapPages slot
  dirCounter : after.dirCounter = mm.allocateDir.1.dirCounter
  physMem : after.physMem = mm.physMem
  programbreakTable : after.programbreakTable = mm.programbreakTable
  table : ∀ pt page, after.pagusrTable pt page =
    if pt = child ∧ page ∈ sharedPages (mm.heapPages slot) then userEntry (mm.frameOf father page)
    else mm.pagusrTable pt page

theorem Managed.forkFails (managed : mm.Managed)
    (failed : mm.allocateDir.1.forkPages child father slot = .ok (after, false)) :
    mm.ForkFails after child father slot := by
  have same := mm.allocateDir_eq
  generalize counted : mm.allocateDir.1.dirCounter = counters at same
  rw [same] at failed
  have taken : Managed { mm with dirCounter := counters } := managed.withCounters counters
  have heap := taken.heapBreak failed
  rcases (forkPages_false heap taken.first).mp failed with ⟨few, shared⟩
  subst shared
  refine ⟨heap, few, counted.symm, rfl, rfl, fun pt page => ?_⟩
  by_cases own : pt = child
  · subst own
    simp only [true_and]
    exact sharePages_child _ pt father _ page
  · rw [if_neg fun shared => own shared.1]
    exact congrFun (sharePages_other _ father _ own) page

end Mm

/-! ## The call -/

section Call

variable {kernel : SequenceKernel} {fault : Fault}

theorem execute_fork_error :
    kernel.execute .fork = .error fault ↔
      Kernel.sysFork ⟨kernel.core.enterSystem, kernel.queues⟩ = .error fault := by
  change (returning sysFork ⟨kernel.core.enterSystem, kernel.queues⟩ >>= fun outcome =>
    Except.ok (finishCall outcome)) = .error fault ↔ _
  cases forked : Kernel.sysFork ⟨kernel.core.enterSystem, kernel.queues⟩ with
  | error failure =>
      rw [returning, forked, error_bind, error_bind]
      exact ⟨fun same => by cases same; rfl, fun same => by cases same; rfl⟩
  | ok outcome =>
      rw [returning, forked]
      constructor
      · intro failed
        cases failed
      · intro failed
        cases failed

/-- A fork that finds a task structure fails in its memory part, or when the process
numbers are used up. -/
theorem sysFork_error (disciplined : Disciplined kernel)
    (notEmpty : kernel.queues.elements .freequeue ≠ []) :
    kernel.sysFork = .error fault ↔
      kernel.core.forkPages = .error fault ∨
        (∃ mm, kernel.core.forkPages = .ok (mm, true)) ∧
          increment kernel.core.globalPID = .error fault := by
  rcases List.exists_cons_of_ne_nil notEmpty with ⟨child, rest, free⟩
  rw [sysFork_eq disciplined free]
  cases kernel.core.forkPages with
  | error failure => simp
  | ok outcome =>
      rcases outcome with ⟨mm, enough⟩
      cases enough with
      | false => simp
      | true => simp [bind_eq_error]

end Call

/-- `sys_fork` comes to an end, and no page index is outside its table on the way. The
process numbers may run out. -/
def StaysInside (kernel : PointerKernel) : Prop :=
  ∀ fault, kernel.execute .fork = .error fault → fault = .signedOverflow

theorem increment_error {value : Int} {fault : Fault} (failed : increment value = .error fault) :
    fault = .signedOverflow := by
  unfold increment at failed
  split at failed <;> cases failed
  rfl

theorem staysInside_iff {kernel : PointerKernel} (mirrored : Mirrored kernel)
    (managed : kernel.core.mm.Managed) (enabled : Event.fork.Enabled kernel.core) :
    StaysInside kernel ↔
      kernel.isEmpty .freequeue = true ∨
        kernel.core.mm.ForksInside kernel.currentTask.dirPagesBaseAddr
          kernel.currentTask.posInDirCounter := by
  have fails := (mirrored.execute enabled).2
  have entered : Disciplined ⟨kernel.toSequences.core.enterSystem, kernel.toSequences.queues⟩ :=
    mirrored.disciplined.sameButStats (.charge _ _)
  rw [mirrored.represents.isEmpty, Kernel.isEmpty_iff]
  by_cases empty : kernel.toSequences.queues.elements .freequeue = []
  · refine iff_of_true (fun fault failed => ?_) (.inl empty)
    have full := @sysFork_full ⟨kernel.toSequences.core.enterSystem, kernel.toSequences.queues⟩
      empty
    rw [fails, execute_fork_error, full] at failed
    cases failed
  · have outcome : ∀ fault, kernel.execute .fork = .error fault ↔ _ := fun fault =>
      (fails fault).trans (execute_fork_error.trans (sysFork_error entered empty))
    have memory : Core.forkPages kernel.toSequences.core.enterSystem =
        kernel.core.mm.allocateDir.1.forkPages
          (kernel.core.mm.freeSlot.getD kernel.currentTask.dirPagesBaseAddr)
          kernel.currentTask.dirPagesBaseAddr kernel.currentTask.posInDirCounter := by
      simp [Core.forkPages, toSequences, currentTask]
    rw [or_iff_right empty, Mm.forksInside_iff managed, ← memory]
    constructor
    · intro inside
      cases forked : Core.forkPages kernel.toSequences.core.enterSystem with
      | ok outcome => exact ⟨outcome, rfl⟩
      | error fault =>
          have failed := inside fault ((outcome fault).mpr (.inl forked))
          subst failed
          exact absurd ((Mm.forkPages_failsOnly _ _ _ _).of_error forked) id
    · rintro ⟨result, forked⟩ fault failed
      rcases (outcome fault).mp failed with memoryFault | ⟨-, overflow⟩
      · rw [forked] at memoryFault
        cases memoryFault
      · exact increment_error overflow

/-! ## The first forks -/

section Steps

variable {machine : Machine} {kernel : SequenceKernel} {child : TaskId} {rest : List TaskId}
  {mm : Mm}

theorem enterSystem_forkPages (kernel : SequenceKernel) :
    kernel.core.enterSystem.forkPages = kernel.core.forkPages := by
  simp [Core.forkPages]

theorem Event.enabled_call {event : Event} {core : Core} (typed : event.WellTyped)
    (notResume : event ≠ .resume) (userMode : core.inKernel = false)
    (notIdle : core.current ≠ core.idleTask) : event.Enabled core := by
  apply And.intro typed
  rw [if_neg notResume]
  exact ⟨userMode, .inr notIdle⟩

theorem sysFork_copied (disciplined : Disciplined kernel)
    (free : kernel.queues.elements .freequeue = child :: rest)
    (copied : kernel.core.forkPages = .ok (mm, true))
    (range : kernel.core.globalPID < 2147483647) :
    Kernel.sysFork ⟨kernel.core.enterSystem, kernel.queues⟩ =
      .ok (Kernel.forked ⟨kernel.core.enterSystem, kernel.queues⟩ child mm,
        kernel.core.globalPID) := by
  have entered : Disciplined ⟨kernel.core.enterSystem, kernel.queues⟩ :=
    disciplined.sameButStats (.charge _ _)
  have forks := sysFork_eq entered free
  have numbered : increment kernel.core.enterSystem.globalPID =
      .ok (kernel.core.globalPID + 1) := if_pos range
  rw [enterSystem_forkPages, copied, ok_bind] at forks
  dsimp only at forks
  rw [if_pos rfl, numbered, ok_bind] at forks
  exact forks

theorem sysFork_outOfFrames (disciplined : Disciplined kernel)
    (free : kernel.queues.elements .freequeue = child :: rest)
    (outOfFrames : kernel.core.forkPages = .ok (mm, false)) :
    Kernel.sysFork ⟨kernel.core.enterSystem, kernel.queues⟩ =
      .ok (Kernel.forkFailed ⟨kernel.core.enterSystem, kernel.queues⟩ child mm, -enomem) := by
  have entered : Disciplined ⟨kernel.core.enterSystem, kernel.queues⟩ :=
    disciplined.sameButStats (.charge _ _)
  have forks := sysFork_eq entered free
  rw [enterSystem_forkPages, outOfFrames, ok_bind] at forks
  dsimp only at forks
  rw [if_neg Bool.false_ne_true] at forks
  exact forks

theorem fork_step {after : SequenceKernel} {result : Int}
    (enabled : Event.fork.Enabled kernel.core)
    (forks : Kernel.sysFork ⟨kernel.core.enterSystem, kernel.queues⟩ = .ok (after, result)) :
    (checkedZeos machine).step kernel .fork (finishCall (after, some result)) := by
  apply And.intro enabled
  change (returning sysFork ⟨kernel.core.enterSystem, kernel.queues⟩ >>= fun outcome =>
    Except.ok (finishCall outcome)) = _
  rw [returning, forks]
  rfl

theorem fork_creates {before after : SequenceKernel} (disciplined : Disciplined before)
    (step : (checkedZeos machine).step before .fork after) (fresh : ¬before.Live child)
    (born : after.Live child) :
    ∃ rest mm, before.processes.freequeue = child :: rest ∧
      before.processes.forkPages before.core.current = .ok (mm, true) ∧
      after.processes =
        { before.processes.addForked before.core.current child before.core.globalPID rest mm with
          globalPID := before.core.globalPID + 1 } := by
  have moved := step_processes disciplined step
  have alive : after.processes.live child := born
  generalize after.processes = next at moved alive
  cases moved with
  | keeps _ _ kept => exact absurd ((kept.live child).mp alive) fresh
  | noMemory => exact absurd alive fresh
  | forked other rest free mm copied =>
      have same : child = other := alive.resolve_left fresh
      subst same
      exact ⟨rest, mm, free, copied, rfl⟩

end Steps

theorem Core.forkPages_copied {core : Core} {child father slot : DirSlot}
    (directory : (core.task core.current).dirPagesBaseAddr = father)
    (position : (core.task core.current).posInDirCounter = slot)
    (found : core.mm.freeSlot = some child) (heap : Mm.HeapBreak core.mm slot)
    (fits : pagLogInitHeap + core.mm.heapPages slot + (numPagData + core.mm.heapPages slot) ≤
      totalPages)
    (readable : core.mm.Readable father slot)
    (enough : numPagData + core.mm.heapPages slot ≤ core.mm.available.card) :
    ∃ frames, (∀ frame ∈ frames, frame ∈ core.mm.available) ∧
      core.forkPages = .ok (core.mm.allocateDir.1.forkCopied child father slot frames, true) := by
  have same := core.mm.allocateDir_eq
  rw [Core.forkPages, directory, position, found, Option.getD_some]
  generalize core.mm.allocateDir.1 = taken at same
  have pages : taken.heapPages slot = core.mm.heapPages slot := by
    rw [same]
    rfl
  have available : taken.available = core.mm.available := by
    rw [same]
    rfl
  have heap : Mm.HeapBreak taken slot := by
    rw [same]
    exact heap
  have readable : taken.Readable father slot := by
    rw [same]
    exact readable
  rw [← pages] at fits enough
  rw [← available] at enough ⊢
  rcases Mm.allocFrames_of_enough enough with ⟨frames, taking⟩
  exact ⟨frames, (Mm.allocFrames_members taking).2.2,
    (Mm.forkPages_true heap).mpr ⟨frames, taking, fits, .inr readable, rfl⟩⟩

theorem Core.forkPages_outOfFrames {core : Core} (managed : core.mm.Managed)
    (breakSet : core.mm.programbreakTable (core.task core.current).posInDirCounter ≠ 0)
    (few : core.mm.available.card <
      numPagData + core.mm.heapPages (core.task core.current).posInDirCounter) :
    ∃ mm, core.forkPages = .ok (mm, false) := by
  have same := core.mm.allocateDir_eq
  have taken : core.mm.allocateDir.1.Managed := by
    rw [same]
    exact managed.withCounters _
  rw [Core.forkPages]
  generalize core.mm.allocateDir.1 = after at same taken
  have heap : Mm.HeapBreak after (core.task core.current).posInDirCounter := by
    rw [same]
    exact (managed.breaks _).heapBreak breakSet
  have lacking : after.available.card <
      numPagData + after.heapPages (core.task core.current).posInDirCounter := by
    rw [same]
    exact few
  exact ⟨_, (Mm.forkPages_false heap taken.first).mpr ⟨lacking, rfl⟩⟩

section Boot

variable (machine : Machine)

theorem boot_freeSlot : (machine.bootCore 0 1).mm.freeSlot = some 3 := by
  have counters := boot_dirCounter machine
  rw [Mm.freeSlot]
  simp only [counters]
  decide

theorem boot_heapBreak : Mm.HeapBreak (machine.bootCore 0 1).mm 2 := by
  have bounds := heapBounds
  rw [Mm.HeapBreak, boot_programbreak, if_pos rfl]
  omega

theorem boot_heapPages : (machine.bootCore 0 1).mm.heapPages 2 = 0 := by
  rw [Mm.heapPages, boot_programbreak, if_pos rfl]
  decide

theorem boot_readable : (machine.bootCore 0 1).mm.Readable 2 2 := by
  have sizes := memoryMap
  intro page member
  rw [boot_heapPages] at member
  rcases Mm.mem_forkedPages.mp member with ⟨lower, upper⟩
  apply And.intro (by omega)
  rw [boot_table, if_pos rfl, Machine.firstTable, if_pos (by omega)]
  rfl

theorem boot_available : (machine.bootCore 0 1).mm.available.card = 356 :=
  Mm.card_available_taken (boot_physMem machine) (by decide)

theorem boot_forkPages : ∃ frames, (∀ frame ∈ frames, frame ∈ (machine.bootCore 0 1).mm.available) ∧
    (machine.bootCore 0 1).forkPages =
      .ok ((machine.bootCore 0 1).mm.allocateDir.1.forkCopied 3 2 2 frames, true) := by
  have sizes := memoryMap
  have slots : ((machine.bootCore 0 1).task 1).dirPagesBaseAddr = 2 ∧
      ((machine.bootCore 0 1).task 1).posInDirCounter = 2 := bootCore_slots machine 1
  apply Core.forkPages_copied slots.1 slots.2 (boot_freeSlot machine) (boot_heapBreak machine)
  · rw [boot_heapPages]
    omega
  · exact boot_readable machine
  · rw [boot_heapPages, boot_available]
    omega

end Boot

/-! ## A child that forks -/

def forkedAtBoot (mm : Mm) : SequenceKernel :=
  finishCall (Kernel.forked ⟨(Machine.sample.bootCore 0 1).enterSystem, bootSequences⟩ 2 mm, some 2)

theorem forkedAtBoot_child (mm : Mm) :
    ∃ history last, (checkedZeos Machine.sample).Run (forkedAtBoot mm) history last ∧
      history.map (fun transition => transition.label) = [.semInit 0 0, .semWait 0, .resume] ∧
      last.core.mm = mm ∧ last.core.current = 2 ∧ last.core.inKernel = false ∧
      last.core.idleTask = 0 ∧ (last.core.task 2).posInDirCounter = 3 ∧
      last.queues.elements .freequeue = [3, 4, 5, 6, 7, 8, 9] := by
  have notIdle : (1 : TaskId) ≠ 0 := by decide
  refine ⟨_, _, .snoc (.snoc (.snoc .nil ⟨?_, rfl⟩) ⟨?_, rfl⟩) ⟨?_, rfl⟩,
    show [Event.semInit 0 0, .semWait 0, .resume] = _ from rfl, rfl, rfl, rfl, rfl, rfl, rfl⟩
  · exact Event.enabled_call (by decide) Event.noConfusion rfl notIdle
  · exact Event.enabled_call (by decide) Event.noConfusion rfl notIdle
  · exact ⟨trivial, rfl⟩

theorem boot_forks : ∃ frames,
    (∀ frame ∈ frames, frame ∈ (Machine.sample.bootCore 0 1).mm.available) ∧
      (checkedZeos Machine.sample).step ⟨Machine.sample.bootCore 0 1, bootSequences⟩ .fork
        (forkedAtBoot
          ((Machine.sample.bootCore 0 1).mm.allocateDir.1.forkCopied 3 2 2 frames)) := by
  have enabled : Event.fork.Enabled (Machine.sample.bootCore 0 1) :=
    Event.enabled_call trivial Event.noConfusion rfl (by decide)
  rcases boot_forkPages Machine.sample with ⟨frames, members, copied⟩
  have forks := @sysFork_copied ⟨Machine.sample.bootCore 0 1, bootSequences⟩ 2 _ _
    (boot_disciplined Machine.sample) rfl copied (by decide)
  exact ⟨frames, members, fork_step enabled forks⟩

/-- A fork stays inside the page tables exactly when nobody is free, or its caller's
memory lets it. -/
theorem forkStaysInside {machine : Machine} {kernel : PointerKernel}
    (reachable : (zeos machine).Reachable kernel) (enabled : Event.fork.Enabled kernel.core) :
    StaysInside kernel ↔
      kernel.isEmpty .freequeue = true ∨
        kernel.core.mm.ForksInside kernel.currentTask.dirPagesBaseAddr
          kernel.currentTask.posInDirCounter := by
  rcases reachable with ⟨history, reaches⟩
  rcases run_toSequences reaches with ⟨mirrored, sequences⟩
  exact staysInside_iff mirrored (reachable_managed sequences) enabled

/-- The first process forks right after start-up. -/
theorem forkStaysInside_boot : StaysInside ⟨Machine.sample.bootCore 0 1, bootLinks⟩ := by
  have sizes := memoryMap
  have pages := boot_heapPages Machine.sample
  have enabled : Event.fork.Enabled (Machine.sample.bootCore 0 1) :=
    Event.enabled_call trivial Event.noConfusion rfl (by decide)
  apply (forkStaysInside ⟨[], _, boot_pointers Machine.sample, .nil⟩ enabled).mpr
  refine .inr ⟨(boot_heapBreak Machine.sample).set, .inr ⟨?_, .inr (boot_readable Machine.sample)⟩⟩
  have small : pagLogInitHeap + (Machine.sample.bootCore 0 1).mm.heapPages 2 +
      (numPagData + (Machine.sample.bootCore 0 1).mm.heapPages 2) ≤ totalPages := by
    rw [pages]
    omega
  exact small

/-- Its child cannot: the break of the child's directory has never been set. -/
theorem forkStaysInside_child :
    ∃ kernel, (zeos Machine.sample).Reachable kernel ∧ Event.fork.Enabled kernel.core ∧
      kernel.core.current = 2 ∧ ¬StaysInside kernel := by
  rcases boot_forks with ⟨frames, -, fork⟩
  rcases forkedAtBoot_child ((Machine.sample.bootCore 0 1).mm.allocateDir.1.forkCopied 3 2 2 frames)
    with ⟨since, last, run, -, memory, current, userMode, idleTask, slot, free⟩
  have start : (checkedZeos Machine.sample).Reaches _ last :=
    ⟨_, boot_sequences Machine.sample, (TransitionSystem.Run.single fork).append run⟩
  rcases reaches_of_sequences start with ⟨history, kernel, reaches, -, same⟩
  have enabled : Event.fork.Enabled last.core :=
    Event.enabled_call trivial Event.noConfusion userMode (by rw [current, idleTask]; decide)
  have managed := reachable_managed start
  rcases (run_toSequences reaches).1 with mirrored
  subst same
  refine ⟨kernel, ⟨history, reaches⟩, enabled, current, fun inside => ?_⟩
  rcases (staysInside_iff mirrored managed enabled).mp inside with empty | inside
  · rw [mirrored.represents.isEmpty, Kernel.isEmpty_iff, free] at empty
    cases empty
  · have breakSet := inside.1
    have unset : kernel.core.mm.programbreakTable kernel.currentTask.posInDirCounter = 0 := by
      have mine : kernel.currentTask.posInDirCounter = 3 := by
        rw [currentTask, show kernel.core.current = 2 from current]
        exact slot
      rw [mine, show kernel.core.mm = _ from memory,
        (Mm.forkCopied_rest _ 3 2 2 frames).2.2, Mm.allocateDir_eq]
      exact boot_programbreak Machine.sample 3
    exact breakSet unset

end Zeos
