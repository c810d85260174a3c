import Zeos.ForkBounds

/-! # Forks that fail

What `sys_fork` leaves when it returns an error. Frames are given back, but the
task structure is lost, with the father's number in it, and so is the directory.
-/

namespace Zeos

open Foundation Kernel

/-- No task structure outside the live tasks carries the number of one of these. -/
def Processes.PidsOwned (view : Processes) : Prop :=
  ∀ t u, ¬view.live t → view.live u → view.pid t ≠ view.pid u

/-- A call that failed has left everything as it was. -/
structure RolledBack (before after : SequenceKernel) : Prop where
  freequeue : after.queues.elements .freequeue = before.queues.elements .freequeue
  readyqueue : after.queues.elements .readyqueue = before.queues.elements .readyqueue
  dirCounter : after.core.mm.dirCounter = before.core.mm.dirCounter
  physMem : after.core.mm.physMem = before.core.mm.physMem
  globalPID : after.core.globalPID = before.core.globalPID
  tasks : ∀ t, before.Live t → after.core.task t = before.core.task t
  pids : after.processes.PidsOwned

section Call

variable {kernel after : PointerKernel} {result : Int}

theorem Mirrored.sysFork (mirrored : Mirrored kernel)
    (call : (kernel.mapCore Core.enterSystem).sysFork = .ok (after, result)) :
    ForkOutcome ⟨kernel.core.enterSystem, kernel.toSequences.queues⟩
      (after.toSequences, result) := by
  let entered : SequenceKernel := ⟨kernel.core.enterSystem, kernel.toSequences.queues⟩
  have disciplined : Disciplined entered := mirrored.disciplined.sameButStats (.charge _ _)
  have outcome := sysFork_outcome disciplined
  have refines := (mirrored.represents.mapCore Core.enterSystem).sysFork
  have agree := refines.of_defined fun failure failed misuse => by
    have elsewhere := outcome.of_error failed
    rw [misuse] at elsewhere
    rcases elsewhere with memory | overflow
    · exact memory
    · cases overflow
  rcases agree.1 _ call with ⟨other, executed, returns⟩
  cases returns with
  | intro represents result =>
      rw [represents.toSequences_eq]
      exact outcome.of_ok executed

theorem Mirrored.sysFork_ok {sequence : SequenceKernel} (mirrored : Mirrored kernel)
    (call : Kernel.sysFork ⟨kernel.core.enterSystem, kernel.toSequences.queues⟩ =
      .ok (sequence, result)) :
    ∃ after, (kernel.mapCore Core.enterSystem).sysFork = .ok (after, result) ∧
      after.toSequences = sequence := by
  have refines := (mirrored.represents.mapCore Core.enterSystem).sysFork
  rcases refines.of_ok call with ⟨⟨after, value⟩, executed, returns⟩
  cases returns with
  | intro represents result => exact ⟨after, executed, represents.toSequences_eq⟩

theorem entered_processes (kernel : SequenceKernel) :
    Kernel.processes ⟨kernel.core.enterSystem, kernel.queues⟩ = kernel.processes :=
  sameButStats_processes (.charge _ _)

theorem ForkOutcome.rolledBack {kernel after : SequenceKernel}
    (numbered : kernel.processes.Numbered) (forked : ForkOutcome kernel (after, result))
    (negative : result < 0) :
    RolledBack kernel after ↔
      kernel.queues.elements .freequeue = [] ∧ kernel.processes.PidsOwned := by
  cases forked with
  | full empty =>
      constructor
      · intro rolled
        exact ⟨empty, rolled.pids⟩
      · rintro ⟨-, owned⟩
        exact ⟨rfl, rfl, rfl, rfl, rfl, fun _ _ => rfl, owned⟩
  | noMemory child rest free mm outOfFrames =>
      have removed : (kernel.forkFailed child mm).queues.elements .freequeue = rest := by
        simp [forkFailed, free]
      constructor
      · intro rolled
        have same := rolled.freequeue
        rw [removed, free] at same
        exact absurd same.symm (List.cons_ne_self child rest)
      · rintro ⟨empty, -⟩
        rw [free] at empty
        cases empty
  | forked child rest free mm copied =>
      have next : 2 ≤ kernel.core.globalPID := numbered.next
      omega

end Call

/-! ## A heap that leaves too few frames -/

theorem Mm.setBreak_here (mm : Mm) (slot : DirSlot) (address : Nat) :
    (mm.setBreak slot address).programbreakTable slot = address :=
  Function.update_self _ _ _

theorem Mm.grown_otherBreak (mm : Mm) {pt slot other : DirSlot} (start address : Nat)
    (frames : List Nat) (different : other ≠ slot) :
    (((mm.mark frames .usedFrame).mapPages pt start frames).setBreak slot
      address).programbreakTable other = mm.programbreakTable other :=
  Function.update_of_ne different _ _

theorem Mm.available_setBreak (mm : Mm) (slot : DirSlot) (address : Nat) :
    (mm.setBreak slot address).available = mm.available := rfl

theorem Mm.available_mapPages (mm : Mm) (pt : DirSlot) (start : Nat) (frames : List Nat) :
    (mm.mapPages pt start frames).available = mm.available := rfl

theorem Mm.grown_mapped {mm : Mm} {pt : DirSlot} {frames : List Nat} {address page : Nat}
    (few : frames.length ≤ 356) (data : ∀ page ∈ forkedPages 0, mm.Mapped pt page)
    (member : page ∈ forkedPages frames.length) :
    Mm.Mapped (((mm.mark frames .usedFrame).mapPages pt pagLogInitHeap frames).setBreak pt
      address) pt page := by
  have sizes := memoryMap
  rcases mem_forkedPages.mp member with ⟨lower, upper⟩
  apply And.intro (by omega)
  change (((mm.mark frames .usedFrame).mapPages pt pagLogInitHeap frames).pagusrTable pt
    page).present = true
  rw [mapPages_table]
  split
  · rfl
  · exact (data page (mem_forkedPages.mpr ⟨lower, by omega⟩)).2

section Boot

variable (machine : Machine)

theorem boot_heapFromPool : Mm.HeapFromPool (machine.bootCore 0 1).mm 2 2 := by
  have sizes := memoryMap
  have bounds := heapBounds
  have start : (machine.bootCore 0 1).mm.programbreakTable 2 = heapStart := by
    rw [boot_programbreak, if_pos rfl]
  have none : ∀ page, pagLogInitHeap ≤ page →
      ¬page * pageSize < (machine.bootCore 0 1).mm.programbreakTable 2 := by
    intro page above
    rw [start]
    simp only [sizes]
    omega
  refine ⟨⟨?_, ?_, ?_, ?_, ?_⟩, ?_, ?_⟩
  · omega
  · omega
  · intro page above _
    rw [boot_unmapped machine 2 above]
    exact iff_of_false Bool.false_ne_true (none page above)
  · intro page above below
    exact absurd below (none page above)
  · intro page other above below
    exact absurd below (none page above)
  · intro page above below
    exact absurd below (none page above)
  · exact (boot_managed machine).first

theorem boot_sbrk {pages : Nat} (few : pages ≤ 356) : ∃ frames,
    (frames.length = pages ∧ frames.Nodup ∧
      ∀ frame ∈ frames, frame ∈ (machine.bootCore 0 1).mm.available) ∧
    (machine.bootCore 0 1).mm.sbrk 2 2 ((pages * pageSize : Nat) : Int) =
      .ok ((((machine.bootCore 0 1).mm.mark frames .usedFrame).mapPages 2 pagLogInitHeap
        frames).setBreak 2 (heapStart + pages * pageSize), some heapStart) := by
  have sizes := memoryMap
  have bounds := heapBounds
  have enough : pages ≤ (machine.bootCore 0 1).mm.available.card := by
    rw [boot_available]
    exact few
  rcases Mm.allocFrames_of_enough enough with ⟨frames, found⟩
  refine ⟨frames, Mm.allocFrames_members found, ?_⟩
  have start : (machine.bootCore 0 1).mm.programbreakTable 2 = heapStart := by
    rw [boot_programbreak, if_pos rfl]
  have below : pagesBelow heapStart = pagLogInitHeap := by decide
  have above : pagesBelow (heapStart + pages * pageSize) = pagLogInitHeap + pages := by
    simp only [pagesBelow, sizes]
    omega
  have int : IsInt ((pages * pageSize : Nat) : Int) := by
    simp only [IsInt, sizes]
    omega
  rw [Mm.sbrk_eq_extended (boot_heapFromPool machine) (by omega) int, Mm.extended]
  rw [start, Int.toNat_natCast, below, above, Nat.add_sub_cancel_left, found,
    if_neg (by simp only [sizes]; omega)]

def Machine.grownMm (frames : List Nat) : Mm :=
  (((machine.bootCore 0 1).mm.mark frames .usedFrame).mapPages 2 pagLogInitHeap frames).setBreak 2
    (heapStart + frames.length * pageSize)

variable {machine}

theorem grownMm_break (frames : List Nat) :
    (machine.grownMm frames).programbreakTable 2 = heapStart + frames.length * pageSize := by
  rw [Machine.grownMm, Mm.setBreak_here]

theorem grownMm_unset (frames : List Nat) {slot : DirSlot} (other : slot ≠ 2) :
    (machine.grownMm frames).programbreakTable slot = 0 := by
  rw [Machine.grownMm, Mm.grown_otherBreak _ _ _ _ other, boot_programbreak, if_neg other]

theorem grownMm_heapBreak {frames : List Nat} (few : frames.length ≤ 356) :
    Mm.HeapBreak (machine.grownMm frames) 2 := by
  have sizes := memoryMap
  have bounds := heapBounds
  rw [Mm.HeapBreak, grownMm_break]
  simp only [sizes]
  omega

theorem grownMm_heapPages (frames : List Nat) :
    (machine.grownMm frames).heapPages 2 = frames.length := by
  have sizes := memoryMap
  have bounds := heapBounds
  rw [Mm.heapPages, grownMm_break]
  simp only [pagesBelow, sizes]
  omega

theorem grownMm_readable {frames : List Nat} (few : frames.length ≤ 356) :
    (machine.grownMm frames).Readable 2 2 := by
  intro page member
  rw [grownMm_heapPages] at member
  apply Mm.grown_mapped few _ member
  rw [← boot_heapPages machine]
  exact boot_readable machine

theorem grownMm_available {frames : List Nat} (nodup : frames.Nodup)
    (members : ∀ frame ∈ frames, frame ∈ (machine.bootCore 0 1).mm.available) :
    (machine.grownMm frames).available.card = 356 - frames.length := by
  have rest : (machine.grownMm frames).available =
      (machine.bootCore 0 1).mm.available \ frames.toFinset := by
    ext frame
    rw [Machine.grownMm, Mm.available_setBreak, Mm.available_mapPages, Mm.available_mark,
      Finset.mem_filter, Finset.mem_sdiff, List.mem_toFinset]
  have subset : frames.toFinset ⊆ (machine.bootCore 0 1).mm.available :=
    fun frame listed => members frame (List.mem_toFinset.mp listed)
  rw [rest, Finset.card_sdiff_of_subset subset, boot_available, List.toFinset_card_of_nodup nodup]

end Boot

theorem sbrk_step {machine : Machine} {kernel : SequenceKernel} {amount : Int} {mm : Mm}
    {last : Nat} (enabled : (Event.sbrk amount).Enabled kernel.core)
    (moved : kernel.core.mm.sbrk kernel.currentTask.dirPagesBaseAddr
      kernel.currentTask.posInDirCounter amount = .ok (mm, some last)) :
    (checkedZeos machine).step kernel (.sbrk amount)
      (finishCall (⟨kernel.core.enterSystem.setMm mm, kernel.queues⟩, some (last : Int))) := by
  apply And.intro enabled
  have same : Kernel.sysSbrk ⟨kernel.core.enterSystem, kernel.queues⟩ amount =
      .ok (⟨kernel.core.enterSystem.setMm mm, kernel.queues⟩, (last : Int)) := by
    have inside : kernel.core.enterSystem.mm.sbrk
        (kernel.core.enterSystem.task kernel.core.enterSystem.current).dirPagesBaseAddr
        (kernel.core.enterSystem.task kernel.core.enterSystem.current).posInDirCounter amount =
          .ok (mm, some last) := by
      simpa [currentTask] using moved
    rw [sysSbrk]
    dsimp only [currentTask]
    rw [inside]
    rfl
  change (returning (fun k => k.sysSbrk amount) ⟨kernel.core.enterSystem, kernel.queues⟩ >>=
    fun outcome => Except.ok (finishCall outcome)) = _
  rw [returning, same]
  rfl

def grownAtBoot (mm : Mm) : SequenceKernel :=
  finishCall (⟨(Machine.sample.bootCore 0 1).enterSystem.setMm mm, bootSequences⟩,
    some (heapStart : Int))

theorem grownAtBoot_core (mm : Mm) :
    (grownAtBoot mm).core.mm = mm ∧
      ((grownAtBoot mm).core.task (grownAtBoot mm).core.current).dirPagesBaseAddr = 2 ∧
      ((grownAtBoot mm).core.task (grownAtBoot mm).core.current).posInDirCounter = 2 ∧
      (grownAtBoot mm).queues.elements .freequeue = [2, 3, 4, 5, 6, 7, 8, 9] :=
  ⟨rfl, rfl, rfl, rfl⟩

theorem boot_grows {pages : Nat} (few : pages ≤ 356) : ∃ frames,
    (frames.length = pages ∧ frames.Nodup ∧
      ∀ frame ∈ frames, frame ∈ (Machine.sample.bootCore 0 1).mm.available) ∧
    (checkedZeos Machine.sample).step ⟨Machine.sample.bootCore 0 1, bootSequences⟩
        (.sbrk ((pages * pageSize : Nat) : Int)) (grownAtBoot (Machine.sample.grownMm frames)) ∧
      (Machine.sample.bootCore 0 1).mm.sbrk 2 2 ((pages * pageSize : Nat) : Int) =
        .ok (Machine.sample.grownMm frames, some heapStart) := by
  have sizes := memoryMap
  have typed : (Event.sbrk ((pages * pageSize : Nat) : Int)).WellTyped := by
    change IsInt ((pages * pageSize : Nat) : Int)
    simp only [IsInt, sizes]
    omega
  have enabled : (Event.sbrk ((pages * pageSize : Nat) : Int)).Enabled
      (Machine.sample.bootCore 0 1) :=
    Event.enabled_call typed Event.noConfusion rfl (by decide)
  rcases boot_sbrk Machine.sample few with ⟨frames, taken, moved⟩
  have length := taken.1
  subst length
  exact ⟨frames, taken, sbrk_step enabled moved, moved⟩

/-- A fork that returns an error leaves everything as it was exactly when it finds
nobody free, and no earlier one has lost a task structure of a process that lives. -/
theorem forkRollsBack {machine : Machine} {kernel after : PointerKernel} {result : Int}
    (reachable : (zeos machine).Reachable kernel)
    (call : (kernel.mapCore Core.enterSystem).sysFork = .ok (after, result))
    (negative : result < 0) :
    RolledBack (kernel.mapCore Core.enterSystem).toSequences after.toSequences ↔
      kernel.isEmpty .freequeue = true ∧ kernel.toSequences.processes.PidsOwned := by
  rcases reachable with ⟨history, reaches⟩
  rcases run_toSequences reaches with ⟨mirrored, sequences⟩
  have same := entered_processes kernel.toSequences
  have numbered := reachable_numbered sequences
  rw [← same] at numbered ⊢
  rw [mirrored.represents.isEmpty, Kernel.isEmpty_iff]
  exact (mirrored.sysFork call).rolledBack numbered negative

/-- Eight threads fill the task array. -/
def allTaken : List Event := List.replicate 8 (.clone 1048576 1081344)

theorem forkRollsBack_full :
    ∃ kernel after, (zeos Machine.sample).Reachable kernel ∧
      (kernel.mapCore Core.enterSystem).sysFork = .ok (after, -eagain) ∧
      RolledBack (kernel.mapCore Core.enterSystem).toSequences after.toSequences := by
  have computed : (replay allTaken ⟨Machine.sample.bootCore 0 1, bootLinks⟩).any (fun run =>
      decide (run.2.isEmpty .freequeue = true ∧ ∀ t, t = run.2.core.idleTask ∨
        t = run.2.core.current ∨ (run.2.core.task t).state ≠ .run)) = true := by
    decide +kernel
  rcases reaches_of_replay computed with ⟨history, kernel, reaches, found⟩
  rcases of_decide_eq_true found with ⟨empty, live⟩
  have mirrored := (run_toSequences reaches).1
  have none : kernel.toSequences.queues.elements .freequeue = [] := by
    rw [mirrored.represents.isEmpty, Kernel.isEmpty_iff] at empty
    exact empty
  rcases mirrored.sysFork_ok (sysFork_full none) with ⟨after, call, -⟩
  refine ⟨kernel, after, reaches.reachable, call, ?_⟩
  apply (forkRollsBack reaches.reachable call (by decide)).mpr
  exact ⟨empty, fun t u notLive => absurd (live t) notLive⟩

/-- With 340 heap pages the first process leaves 16 frames, and loses a task structure
when it forks. -/
theorem forkRollsBack_lost :
    ∃ kernel after, (zeos Machine.sample).Reachable kernel ∧
      (kernel.mapCore Core.enterSystem).sysFork = .ok (after, -enomem) ∧
      ¬RolledBack (kernel.mapCore Core.enterSystem).toSequences after.toSequences := by
  rcases @boot_grows 340 (by decide) with ⟨frames, ⟨length, nodup, members⟩, grows, -⟩
  have start : (checkedZeos Machine.sample).Reaches _
      (grownAtBoot (Machine.sample.grownMm frames)) :=
    ⟨_, boot_sequences Machine.sample, .single grows⟩
  rcases reaches_of_sequences start with ⟨history, kernel, reaches, -, same⟩
  have mirrored := (run_toSequences reaches).1
  have managed := reachable_managed start
  have few : (Machine.sample.grownMm frames).available.card <
      numPagData + (Machine.sample.grownMm frames).heapPages 2 := by
    rw [grownMm_available nodup members, grownMm_heapPages, length]
    decide
  have heap : Mm.HeapBreak (Machine.sample.grownMm frames) 2 := grownMm_heapBreak (by omega)
  rcases grownAtBoot_core (Machine.sample.grownMm frames) with ⟨memory, -, slot, free⟩
  rw [← same] at memory slot free managed
  rcases Core.forkPages_outOfFrames managed (by rw [memory, slot]; exact heap.set)
    (by rw [memory, slot]; exact few) with ⟨mm, outOfFrames⟩
  have forks := sysFork_outOfFrames mirrored.disciplined free outOfFrames
  rcases mirrored.sysFork_ok forks with ⟨after, call, -⟩
  refine ⟨kernel, after, reaches.reachable, call, fun rolled => ?_⟩
  have numbered := reachable_numbered (run_toSequences reaches).2
  rw [← entered_processes kernel.toSequences] at numbered
  have empty := (((mirrored.sysFork call).rolledBack numbered (by decide)).mp rolled).1
  have nothing : kernel.toSequences.queues.elements .freequeue = [] := empty
  rw [free] at nothing
  cases nothing

end Zeos
