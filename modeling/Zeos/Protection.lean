import Zeos.ForkFailure
import Zeos.MemoryRuns

/-! # Protection of the kernel and of the code

Start-up keeps the kernel's pages from the user and the code from being written. The
entries that a fork makes do not: `set_ss_pag` gives every page to the user, for
writing.
-/

namespace Zeos

open Foundation Kernel

namespace Mm

variable {machine : Machine} {mm after : Mm} {pt slot other : DirSlot} {increment : Int}

structure Protects (machine : Machine) (mm : Mm) (pt : DirSlot) : Prop where
  kernel : ∀ page < numPagKernel,
    ¬((mm.pagusrTable pt page).present = true ∧ (mm.pagusrTable pt page).user = true)
  null : (mm.pagusrTable pt 0).present = false
  guards : (mm.pagusrTable pt machine.protectedTasks).present = false ∧
    (mm.pagusrTable pt (machine.protectedTasks + 11)).present = false
  code : ∀ page, pagLogInitCode ≤ page → page < pagLogInitCode + numPagCode →
    ¬((mm.pagusrTable pt page).present = true ∧ (mm.pagusrTable pt page).rw = true)

theorem Protects.of_low (protects : mm.Protects machine pt)
    (low : ∀ page < pagLogInitData, after.pagusrTable pt page = mm.pagusrTable pt page) :
    after.Protects machine pt := by
  have sizes := memoryMap
  have guard := machine.protectedTasks_lt
  refine ⟨fun page below => ?_, ?_, ⟨?_, ?_⟩, fun page above below => ?_⟩
  · rw [low page (by omega)]
    exact protects.kernel page below
  · rw [low 0 (by omega)]
    exact protects.null
  · rw [low _ (by omega)]
    exact protects.guards.1
  · rw [low _ (by omega)]
    exact protects.guards.2
  · rw [low page (by omega)]
    exact protects.code page above below

theorem not_protects_of_userEntry {frame : Nat}
    (entry : mm.pagusrTable pt pagLogInitCode = userEntry frame) : ¬mm.Protects machine pt := by
  have sizes := memoryMap
  intro protects
  apply protects.code pagLogInitCode (Nat.le_refl _) (by omega)
  rw [entry]
  exact ⟨rfl, rfl⟩

/-! ## What the calls do to low entries and to breaks -/

theorem SbrkEffect.otherTable (effect : SbrkEffect mm pt slot increment after)
    (different : other ≠ pt) : after.pagusrTable other = mm.pagusrTable other := by
  cases effect with
  | unchanged => rfl
  | grown frames positive inHeap found lower upper =>
      exact mapPages_other (mm.mark frames .usedFrame) _ frames different
  | shrunk negative lower upper aboveZero => exact unmapPages_other mm _ different

theorem SbrkEffect.otherBreak (effect : SbrkEffect mm pt slot increment after)
    (different : other ≠ slot) : after.programbreakTable other = mm.programbreakTable other := by
  cases effect with
  | unchanged => rfl
  | grown frames positive inHeap found lower upper => exact grown_otherBreak mm _ _ frames different
  | shrunk negative lower upper aboveZero => exact Function.update_of_ne different _ _

theorem SbrkEffect.low (effect : SbrkEffect mm pt slot increment after)
    {page : Nat} (below : page < pagLogInitData) :
    after.pagusrTable other page = mm.pagusrTable other page := by
  have sizes := memoryMap
  by_cases own : other = pt
  · subst own
    cases effect with
    | unchanged => rfl
    | grown frames positive inHeap found lower upper =>
        have start : pagLogInitHeap ≤ pagesBelow (mm.programbreakTable slot) :=
          pagesBelow_mono inHeap
        have entry := mapPages_table (mm.mark frames .usedFrame) other
          (pagesBelow (mm.programbreakTable slot)) frames page
        rw [if_neg (by omega)] at entry
        exact entry
    | shrunk negative lower upper aboveZero =>
        have entry := @shrunk_table mm other slot increment page
        rw [if_neg fun member => by rw [mem_released] at member; omega] at entry
        exact entry
  · exact congrFun (effect.otherTable own) page

theorem SbrkEffect.heapBreak (effect : SbrkEffect mm pt slot increment after)
    (heap : HeapBreak mm other) : HeapBreak after other := by
  by_cases own : other = slot
  · subst own
    cases effect with
    | unchanged => exact heap
    | grown frames positive inHeap found lower upper =>
        rw [HeapBreak, setBreak_here]
        exact ⟨lower, upper⟩
    | shrunk negative lower upper aboveZero =>
        rw [HeapBreak, setBreak_here]
        exact ⟨Nat.le_max_left _ _, by omega⟩
  · rw [HeapBreak, effect.otherBreak own]
    exact heap

theorem releaseDir_low (breakSet : BreakSet mm slot) (released : mm.releaseDir pt slot = .ok after)
    {page : Nat} (below : page < pagLogInitData) :
    after.pagusrTable other page = mm.pagusrTable other page := by
  have outcome := (releaseDir_eq_ok breakSet).mp released
  split at outcome
  · rw [outcome.2]
    by_cases own : other = pt
    · subst own
      rw [unmapPages_table, if_neg fun member => by rw [mem_exitPages] at member; omega]
      rfl
    · exact congrFun (unmapPages_other (mm.uncount pt) _ own) page
  · rw [outcome]
    rfl

end Mm

/-! ## Steps -/

namespace Processes

variable {view after : Processes} {caller : TaskId} {machine : Machine}

def Protected (machine : Machine) (view : Processes) : Prop :=
  ∀ t, view.live t → view.mm.Protects machine (view.dirPagesBaseAddr t)

def HeapBreaks (view : Processes) : Prop :=
  ∀ t, view.live t → t ≠ 0 → view.mm.HeapBreak (view.posInDirCounter t)

/-- A fork that brings no process to life and touches the table of none: nobody is free,
or there are too few frames and the child's directory is used by no process. -/
def ForkRefused (view : Processes) (caller : TaskId) : Prop :=
  view.freequeue = [] ∨
    view.mm.available.card < numPagData + view.mm.heapPages (view.posInDirCounter caller) ∧
      ∃ slot, view.mm.freeSlot = some slot ∧ ∀ t, view.live t → view.dirPagesBaseAddr t ≠ slot

end Processes

section Steps

variable {machine : Machine} {before after : SequenceKernel} {event : Event}

open Processes in
theorem MemoryStep.protected (step : MemoryStep before event after)
    (holds : before.processes.Protected machine ∧ before.processes.HeapBreaks)
    (allowed : event = .fork → before.processes.ForkRefused before.core.current) :
    after.processes.Protected machine ∧ after.processes.HeapBreaks := by
  rcases step with ⟨sound, managed, reserved, moved, typed, -, notIdle, -, -, -⟩
  rcases holds with ⟨holds, breaks⟩
  generalize before.processes = view at *
  generalize after.processes = next at *
  have slots := fun {t : TaskId} (live : view.live t) => moved.slots_of_live sound live
  cases moved with
  | keeps _ _ kept =>
      constructor
      · intro t live
        have earlier := (kept.live t).mp live
        rw [(slots earlier).2, kept.mm]
        exact (holds t earlier).of_low fun _ _ => rfl
      · intro t live notIdle
        have earlier := (kept.live t).mp live
        rw [(slots earlier).1, kept.mm]
        exact breaks t earlier notIdle
  | noMemory child rest free mm outOfFrames =>
      have fails := managed.forkFails outOfFrames
      rcases allowed rfl with none | ⟨-, slot, found, unused⟩
      · rw [free] at none
        cases none
      · have own : view.newSlot (view.dirPagesBaseAddr before.core.current) = slot := by
          rw [newSlot, found]
          rfl
        rw [own] at fails
        constructor
        · intro t live
          rw [(slots live).2]
          change mm.Protects machine (view.dirPagesBaseAddr t)
          refine (holds t live).of_low fun page _ => ?_
          rw [fails.table, if_neg fun shared => unused t live shared.1]
        · intro t live notIdle
          rw [(slots live).1]
          change mm.HeapBreak (view.posInDirCounter t)
          rw [Mm.HeapBreak, fails.programbreakTable]
          exact breaks t live notIdle
  | forked child rest free mm copied =>
      rcases managed.forks copied with ⟨frames, forks, -⟩
      have enough := forks.enough
      rcases allowed rfl with none | ⟨few, -⟩
      · rw [free] at none
        cases none
      · omega
  | cloned function stack child rest free =>
      have running := notIdle rfl
      constructor
      · rintro t (live | same)
        · rw [(slots live).2]
          exact (holds t live).of_low fun _ _ => rfl
        · subst same
          change Mm.Protects machine _ (Function.update view.dirPagesBaseAddr t _ t)
          rw [Function.update_self]
          exact (holds _ sound.callerLive).of_low fun _ _ => rfl
      · rintro t (live | same) notIdle
        · rw [(slots live).1]
          exact breaks t live notIdle
        · subst same
          change Mm.HeapBreak _ (Function.update view.posInDirCounter t _ t)
          rw [Function.update_self]
          exact breaks _ sound.callerLive running
  | exited mm freed =>
      constructor
      · rintro t ⟨live, -⟩
        exact (holds t live).of_low fun page below =>
          Mm.releaseDir_low (managed.breaks _) freed below
      · rintro t ⟨live, -⟩ notIdle
        change mm.HeapBreak (view.posInDirCounter t)
        rw [Mm.HeapBreak, (Mm.releaseDir_counters freed).2]
        exact breaks t live notIdle
  | moved amount mm result outcome =>
      have effect := Mm.sbrk_effect typed (managed.breaks _) managed.first outcome
      constructor
      · intro t live
        exact (holds t live).of_low fun page below => effect.low below
      · intro t live notIdle
        exact effect.heapBreak (breaks t live notIdle)

open Processes in
theorem MemoryStep.forkRefused (step : MemoryStep before .fork after)
    (holds : after.processes.Protected machine) :
    before.processes.ForkRefused before.core.current := by
  rcases step with ⟨sound, managed, reserved, moved, -, -, -, -, -, -⟩
  have sizes := memoryMap
  generalize before.processes = view at *
  generalize after.processes = next at *
  have slots := fun {t : TaskId} (live : view.live t) => moved.slots_of_live sound live
  cases moved with
  | keeps _ _ kept full => exact .inl (full rfl)
  | noMemory child rest free mm outOfFrames =>
      have fails := managed.forkFails outOfFrames
      have entry := fails.table (view.newSlot (view.dirPagesBaseAddr before.core.current))
        pagLogInitCode
      rw [if_pos ⟨rfl, Mm.mem_sharedPages.mpr (.inl (by omega))⟩] at entry
      -- no live process has the table with that entry
      have unused : ∀ t, view.live t →
          view.dirPagesBaseAddr t ≠ view.newSlot (view.dirPagesBaseAddr before.core.current) := by
        intro t live same
        apply Mm.not_protects_of_userEntry entry
        have kept := holds t live
        rwa [(slots live).2, same] at kept
      refine .inr ⟨fails.few, ?_⟩
      cases found : view.mm.freeSlot with
      | none =>
          apply absurd _ (unused before.core.current sound.callerLive)
          rw [newSlot, found]
          rfl
      | some slot =>
          refine ⟨slot, rfl, ?_⟩
          rw [newSlot, found] at unused
          exact unused
  | forked child rest free mm copied =>
      rcases managed.forks copied with ⟨frames, forks, -⟩
      have entry := forks.table (view.newSlot (view.dirPagesBaseAddr before.core.current))
        pagLogInitCode
      rw [if_neg fun fresh => by have := Mm.mem_forkedPages.mp fresh.2; omega,
        if_neg fun window => by have := Mm.mem_windowPages.mp window.2; omega,
        if_pos ⟨rfl, by omega⟩] at entry
      have kept := holds child (.inr rfl)
      change mm.Protects machine (Function.update view.dirPagesBaseAddr child _ child) at kept
      rw [Function.update_self] at kept
      exact absurd kept (Mm.not_protects_of_userEntry entry)

end Steps

/-! ## Start-up -/

theorem initialEntry_low (machine : Machine) (page : Nat) :
    (machine.initialEntry page).user = false ∧
      (page = 0 ∨ page = machine.protectedTasks ∨ page = machine.protectedTasks + 11 ∨
        numPagKernel ≤ page → (machine.initialEntry page).present = false) := by
  unfold Machine.initialEntry
  split
  · exact ⟨rfl, fun _ => rfl⟩
  · rename_i inside
    split
    · exact ⟨rfl, fun _ => rfl⟩
    · rename_i unguarded
      refine ⟨rfl, fun outside => ?_⟩
      omega

theorem boot_table_low (machine : Machine) (pt : DirSlot) {page : Nat}
    (below : page < numPagKernel) :
    (machine.bootCore 0 1).mm.pagusrTable pt page = machine.initialEntry page := by
  have sizes := memoryMap
  have first : machine.firstTable page = machine.initialEntry page := by
    rw [Machine.firstTable, if_neg (by omega), if_neg (by omega)]
  rw [boot_table, first, ite_self]

theorem boot_protects (machine : Machine) (pt : DirSlot) :
    Mm.Protects machine (machine.bootCore 0 1).mm pt := by
  have sizes := memoryMap
  have guard := machine.protectedTasks_lt
  have low := fun page => @boot_table_low machine pt page
  refine ⟨fun page below => ?_, ?_, ⟨?_, ?_⟩, fun page above below => ?_⟩
  · rw [low page below, (initialEntry_low machine page).1]
    exact fun both => Bool.false_ne_true both.2
  · rw [low 0 (by omega)]
    exact (initialEntry_low machine _).2 (.inl rfl)
  · rw [low _ (by omega)]
    exact (initialEntry_low machine _).2 (.inr (.inl rfl))
  · rw [low _ (by omega)]
    exact (initialEntry_low machine _).2 (.inr (.inr (.inl rfl)))
  · rw [boot_table]
    split
    · rw [Machine.firstTable, if_neg (by omega), if_pos (by omega)]
      exact fun both => Bool.false_ne_true both.2
    · rw [(initialEntry_low machine page).2 (.inr (.inr (.inr (by omega))))]
      exact fun both => Bool.false_ne_true both.1

theorem boot_protected (machine : Machine) :
    (Kernel.processes ⟨machine.bootCore 0 1, bootSequences⟩).Protected machine ∧
      (Kernel.processes ⟨machine.bootCore 0 1, bootSequences⟩).HeapBreaks := by
  constructor
  · intro t live
    exact boot_protects machine _
  · intro t live notIdle
    have first := (boot_live live).resolve_left notIdle
    have slot : ((machine.bootCore 0 1).task t).posInDirCounter = 2 := by
      rw [(bootCore_slots machine t).2, if_neg notIdle, if_pos first]
    change Mm.HeapBreak (machine.bootCore 0 1).mm ((machine.bootCore 0 1).task t).posInDirCounter
    rw [slot]
    exact boot_heapBreak machine

/-! ## The kernel in its place -/

namespace Mm

variable {machine : Machine} {mm after : Mm}

def InPlace (machine : Machine) (mm : Mm) : Prop :=
  ∀ pt page, (machine.initialEntry page).present = true →
    (mm.pagusrTable pt page).present = true ∧ mm.frameOf pt page = page

theorem initialEntry_kernel {page : Nat} (initial : (machine.initialEntry page).present = true) :
    page < numPagKernel := by
  by_contra above
  rw [(initialEntry_low machine page).2 (.inr (.inr (.inr (Nat.not_lt.mp above))))] at initial
  cases initial

theorem InPlace.of_copied (inPlace : mm.InPlace machine)
    (copied : ∀ pt, ∀ page < numPagKernel, after.pagusrTable pt page = mm.pagusrTable pt page ∨
      ∃ father, after.pagusrTable pt page = userEntry (mm.frameOf father page)) :
    after.InPlace machine := by
  intro pt page initial
  rcases copied pt page (initialEntry_kernel initial) with kept | ⟨father, shared⟩
  · rw [frameOf, kept]
    exact inPlace pt page initial
  · have frame := (inPlace father page initial).2
    unfold frameOf at frame shared ⊢
    rw [shared, userEntry_frame]
    exact ⟨rfl, frame⟩

theorem boot_inPlace (machine : Machine) : (machine.bootCore 0 1).mm.InPlace machine := by
  have sizes := memoryMap
  intro pt page initial
  have below := initialEntry_kernel initial
  rw [frameOf, boot_table_low machine pt below]
  refine ⟨initial, ?_⟩
  unfold Machine.initialEntry at initial ⊢
  split_ifs at initial ⊢ with outside guarded
  · cases initial
  · exact Nat.mod_eq_of_lt (show page < 2 ^ 20 by omega)

end Mm

theorem MemoryStep.inPlace {machine : Machine} {before after : SequenceKernel} {event : Event}
    (step : MemoryStep before event after)
    (inPlace : before.processes.mm.InPlace machine) : after.processes.mm.InPlace machine := by
  have sizes := memoryMap
  rcases step with ⟨sound, managed, reserved, moved, typed, -, -, -, -, -⟩
  generalize before.processes = view at *
  generalize after.processes = next at *
  cases moved with
  | keeps _ _ kept =>
      apply inPlace.of_copied
      intro pt page _
      rw [kept.mm]
      exact .inl rfl
  | noMemory child rest free mm outOfFrames =>
      have fails := managed.forkFails outOfFrames
      refine inPlace.of_copied fun pt page _ => ?_
      change mm.pagusrTable pt page = _ ∨ ∃ father, mm.pagusrTable pt page = _
      rw [fails.table]
      split
      · exact .inr ⟨_, rfl⟩
      · exact .inl rfl
  | forked child rest free mm copied =>
      rcases managed.forks copied with ⟨frames, forks, -⟩
      refine inPlace.of_copied fun pt page below => ?_
      change mm.pagusrTable pt page = _ ∨ ∃ father, mm.pagusrTable pt page = _
      rw [forks.table, if_neg fun data => by have := Mm.mem_forkedPages.mp data.2; omega,
        if_neg fun window => by have := Mm.mem_windowPages.mp window.2; omega]
      split
      · exact .inr ⟨_, rfl⟩
      · exact .inl rfl
  | cloned function stack child rest free =>
      exact inPlace.of_copied fun _ _ _ => .inl rfl
  | exited mm freed =>
      exact inPlace.of_copied fun pt page below =>
        .inl (Mm.releaseDir_low (managed.breaks _) freed (by omega))
  | moved amount mm result outcome =>
      have effect := Mm.sbrk_effect typed (managed.breaks _) managed.first outcome
      exact inPlace.of_copied fun pt page below => .inl (effect.low (by omega))

theorem inPlace_of_reaches {machine : Machine} {history : List Recorded} {last : SequenceKernel}
    (reaches : (checkedZeos machine).Reaches history last) :
    last.processes.mm.InPlace machine := by
  have around := @reaches_memoryStep machine history last reaches
  rcases reaches with ⟨first, start, run⟩
  let Holds (kernel : SequenceKernel) : Prop := kernel.processes.mm.InPlace machine
  have initially : Holds first := by
    rw [init_eq start]
    exact Mm.boot_inPlace machine
  have holds : Holds last :=
    run.invariant initially fun transition member _ => (around member).inPlace
  exact holds

/-! ## Runs -/

/-- The table of every process that lives keeps the kernel from the user, and the code
from being written. -/
def KernelProtected (machine : Machine) (kernel : PointerKernel) : Prop :=
  ∀ t, kernel.toSequences.Live t →
    kernel.core.mm.Protects machine (kernel.core.task t).dirPagesBaseAddr

/-- A fork here brings no process to life, and touches the table of none. -/
def ForkRefused (kernel : PointerKernel) : Prop :=
  kernel.isEmpty .freequeue = true ∨
    kernel.core.mm.available.card <
        numPagData + kernel.core.mm.heapPages kernel.currentTask.posInDirCounter ∧
      ∃ slot, kernel.core.mm.freeSlot = some slot ∧
        ∀ t, kernel.toSequences.Live t → (kernel.core.task t).dirPagesBaseAddr ≠ slot

theorem forkRefused_iff {kernel : PointerKernel} (mirrored : Mirrored kernel) :
    ForkRefused kernel ↔ kernel.toSequences.processes.ForkRefused kernel.core.current := by
  rw [ForkRefused, mirrored.represents.isEmpty, Kernel.isEmpty_iff]
  exact .rfl

theorem protectedRun_iff {machine : Machine} {history : List Recorded} {last : SequenceKernel}
    (reaches : (checkedZeos machine).Reaches history last) :
    (∀ transition ∈ history, transition.before.processes.Protected machine ∧
        transition.after.processes.Protected machine) ↔
      ∀ transition ∈ history, transition.label = .fork →
        transition.before.processes.ForkRefused transition.before.core.current := by
  have around := @reaches_memoryStep machine history last reaches
  rcases reaches with ⟨first, start, run⟩
  let Holds (kernel : SequenceKernel) : Prop :=
    kernel.processes.Protected machine ∧ kernel.processes.HeapBreaks
  have initially : Holds first := by
    rw [init_eq start]
    exact boot_protected machine
  apply run.right_iff initially
  · intro transition member _ holds allowed
    have after := (around member).protected holds allowed
    exact ⟨after, holds.1, after.1⟩
  · intro transition member _ _ right fork
    have step := around member
    rw [fork] at step
    exact step.forkRefused right.2

/-- Protection lasts exactly as long as forks are refused. -/
theorem protectionKept {machine : Machine} {history : List (Transition PointerKernel Event)}
    {last : PointerKernel} (reaches : (zeos machine).Reaches history last) :
    (∀ transition ∈ history, KernelProtected machine transition.before ∧
        KernelProtected machine transition.after) ↔
      ∀ transition ∈ history, transition.label = .fork → ForkRefused transition.before := by
  have sequences := protectedRun_iff (run_toSequences reaches).2
  rw [List.forall_mem_map, List.forall_mem_map] at sequences
  apply sequences.trans
  refine forall₂_congr fun transition member => imp_congr_right fun _ => ?_
  exact (forkRefused_iff (reachable_mirrored (reaches.along transition member).1)).symm

/-- Threads fill the task array, and then a fork is refused. -/
theorem protectionKept_full :
    ∃ history last, (zeos Machine.sample).Reaches history last ∧
      history.map (fun transition => transition.label) = allTaken ++ [.fork] ∧
      ∀ transition ∈ history, KernelProtected Machine.sample transition.before ∧
        KernelProtected Machine.sample transition.after := by
  have computed : (replay (allTaken ++ [.fork]) ⟨Machine.sample.bootCore 0 1, bootLinks⟩).any
      (fun run => decide (run.1.map (fun transition => transition.label) = allTaken ++ [.fork] ∧
        ∀ transition ∈ run.1, transition.label = .fork →
          transition.before.isEmpty .freequeue = true)) = true := by
    decide +kernel
  rcases reaches_of_replay computed with ⟨history, last, reaches, found⟩
  rcases of_decide_eq_true found with ⟨labels, empty⟩
  refine ⟨history, last, reaches, labels, (protectionKept reaches).mpr ?_⟩
  exact fun transition member fork => .inl (empty transition member fork)

/-- The first fork already gives the child code pages that it can write. -/
theorem protectionKept_fork :
    ∃ kernel, (zeos Machine.sample).Reachable kernel ∧ ¬KernelProtected Machine.sample kernel := by
  have sizes := memoryMap
  rcases boot_forks with ⟨frames, -, fork⟩
  have start : (checkedZeos Machine.sample).Reaches _ _ :=
    ⟨_, boot_sequences Machine.sample, .single fork⟩
  have step := reaches_memoryStep start (List.mem_singleton_self _)
  rcases reaches_of_sequences start with ⟨history, kernel, reaches, -, same⟩
  refine ⟨kernel, ⟨history, reaches⟩, fun holds => ?_⟩
  have after : kernel.toSequences.processes.Protected Machine.sample := holds
  rw [same] at after
  rcases step.forkRefused after with empty | ⟨few, -⟩
  · cases empty
  · have available := boot_available Machine.sample
    have pages := boot_heapPages Machine.sample
    change (Machine.sample.bootCore 0 1).mm.available.card <
      numPagData + (Machine.sample.bootCore 0 1).mm.heapPages 2 at few
    omega

end Zeos
