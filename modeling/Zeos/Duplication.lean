import Zeos.ForkFailure
import Zeos.MemoryRuns

/-! # What a fork duplicates

The child gets frames of its own for data and heap, with the father's contents. Where
an earlier fork has failed, they may still be mapped in the table that it was making.
-/

namespace Zeos

open Foundation Kernel

namespace Mm

variable {mm after : Mm} {pt child father slot : DirSlot} {frames : List Nat}

/-! ## Contents of frames -/

theorem copiedPages_otherRam (mm : Mm) (child father : DirSlot) (heapPages : Nat) {count : Nat}
    (within : count ≤ frames.length) {frame : Nat} (other : frame ∉ frames) :
    (mm.copiedPages child father heapPages frames count).ram frame = mm.ram frame := by
  induction count with
  | zero => rfl
  | succ count induction =>
      have different : frame ≠ frames.getD count 0 := by
        intro same
        exact other (same ▸ getD_mem within)
      exact (Function.update_of_ne different _ _).trans (induction (by omega))

theorem copiedPages_ram (mm : Mm) {heapPages count : Nat} (apart : child ≠ father)
    (within : count ≤ numPagData + heapPages) (length : frames.length = numPagData + heapPages)
    (nodup : frames.Nodup)
    (sources : ∀ index < count, mm.frameOf father (pagLogInitData + index) ∉ frames)
    {index offset : Nat} (below : index < count) (inside : offset < pageSize) :
    (mm.copiedPages child father heapPages frames count).ram (frames.getD index 0) offset =
      mm.ram (mm.frameOf father (pagLogInitData + index)) offset := by
  have sizes := memoryMap
  induction count with
  | zero => exact absurd below (Nat.not_lt_zero _)
  | succ count induction =>
      let earlier := mm.copiedPages child father heapPages frames count
      let mapped := earlier.mapChild child count (frames.getD count 0)
      change copyFrame earlier.ram (mapped.frameOf father (pagLogInitData + count))
        (frames.getD count 0) pageSize (frames.getD index 0) offset = _
      by_cases last : index = count
      · subst last
        -- the father's entry is still the one of the start
        have source : mapped.frameOf father (pagLogInitData + index) =
            mm.frameOf father (pagLogInitData + index) := by
          have entry : (earlier.mapChild child index (frames.getD index 0)).pagusrTable father
              (pagLogInitData + index) = mm.pagusrTable father (pagLogInitData + index) := by
            rw [mapChild, setEntry_otherTable _ _ _ (Ne.symm apart),
              copiedPages_table mm child father heapPages frames (by omega),
              if_neg fun inside => apart inside.1.symm, if_neg (by omega)]
          exact frameOf_congr entry
        rw [source, copyFrame, Function.update_self, if_pos inside]
        exact congrFun (copiedPages_otherRam mm child father heapPages (by omega)
          (sources index below)) offset
      · have different : frames.getD index 0 ≠ frames.getD count 0 :=
          fun same => last (getD_inj nodup (by omega) (by omega) same)
        rw [copyFrame, Function.update_of_ne different]
        exact induction (by omega) (fun index below => sources index (by omega)) (by omega)

theorem Forks.ram (forks : mm.Forks after child father slot frames)
    (copied : after = mm.allocateDir.1.forkCopied child father slot frames) :
    (∀ frame, frame ∉ frames → after.ram frame = mm.ram frame) ∧
      (child ≠ father →
        (∀ page ∈ forkedPages (mm.heapPages slot), mm.frameOf father page ∉ frames) →
        ∀ page ∈ forkedPages (mm.heapPages slot), ∀ offset < pageSize,
          after.ram (frames.getD (page - pagLogInitData) 0) offset =
            mm.ram (mm.frameOf father page) offset) := by
  have sizes := memoryMap
  have length := forks.length
  have same := mm.allocateDir_eq
  generalize mm.allocateDir.1 = taken at same copied
  have pages : taken.heapPages slot = mm.heapPages slot := by
    rw [same]
    rfl
  have ram : taken.ram = mm.ram := by rw [same]
  have frameOf : ∀ page, taken.frameOf father page = mm.frameOf father page := by
    intro page
    rw [same]
    rfl
  let start := (taken.mark frames .usedFrame).withTables (taken.forkShared child father slot)
  have copy : after = start.copiedPages child father (mm.heapPages slot) frames
      (numPagData + mm.heapPages slot) := by
    rw [copied, forkCopied, pages]
  have source : ∀ page, start.frameOf father page = mm.frameOf father page := by
    intro page
    rw [← frameOf page]
    exact sharePages_frameOf taken child father _ page
  constructor
  · intro frame other
    rw [copy, copiedPages_otherRam start child father _ (by omega) other]
    exact congrFun ram frame
  · intro apart sources page member offset inside
    rcases mem_forkedPages.mp member with ⟨lower, upper⟩
    have number : pagLogInitData + (page - pagLogInitData) = page := by omega
    rw [copy, copiedPages_ram start apart (Nat.le_refl _) length forks.nodup _ (by omega) inside,
      number, source, ← ram]
    · rfl
    · intro index below
      rw [source]
      exact sources _ (mem_forkedPages.mpr ⟨by omega, by omega⟩)

/-! ## The father -/

def ProcessPage (programbreak page : Nat) : Prop :=
  pagLogInitCode ≤ page ∧ page < pagLogInitCode + numPagCode ∨
    pagLogInitData ≤ page ∧ page < pagLogInitData + numPagData ∨
    pagLogInitHeap ≤ page ∧ page ≤ (programbreak - 1) / pageSize

/-- The user pages that are mapped are code, data and heap, on frames in use that are
all different and from the pool. -/
structure ProperParent (mm : Mm) (father slot : DirSlot) : Prop where
  lower : heapStart ≤ mm.programbreakTable slot
  mapped : ∀ page, numPagKernel ≤ page → page < totalPages →
    ((mm.pagusrTable father page).present = true ↔ ProcessPage (mm.programbreakTable slot) page)
  inUse : ∀ page, ProcessPage (mm.programbreakTable slot) page →
    mm.frameOf father page ∈ poolFrames ∧ mm.physMem (mm.frameOf father page) = .usedFrame
  distinct : ∀ page other, ProcessPage (mm.programbreakTable slot) page →
    ProcessPage (mm.programbreakTable slot) other →
    mm.frameOf father page = mm.frameOf father other → page = other

theorem HeapBreak.processPage (heap : HeapBreak mm slot) {page : Nat} :
    ProcessPage (mm.programbreakTable slot) page ↔
      numPagKernel ≤ page ∧ page < pagLogInitHeap + mm.heapPages slot := by
  have sizes := memoryMap
  have lower := heap.1
  simp only [ProcessPage, heapPages, pagesBelow, sizes]
  omega

/-- Entries that are not present are empty. Those of kernel pages may still name a frame
of the kernel. -/
def Cleared (mm : Mm) : Prop :=
  ∀ pt page, (mm.pagusrTable pt page).present = false →
    mm.frameOf pt page < numPagKernel ∧ (numPagKernel ≤ page → mm.pagusrTable pt page = .zero)

/-! ## The child -/

/-- The child has copies of data and heap on frames that were free and are mapped nowhere
else, and the code of the father. Nothing changes for the father and in used frames. -/
structure Duplicates (before after : Mm) (child father slot : DirSlot) : Prop where
  mapped : ∀ page ∈ forkedPages (before.heapPages slot),
    (after.pagusrTable child page).present = true ∧
      before.physMem (after.frameOf child page) = .freeFrame
  nowhereElse : ∀ page ∈ forkedPages (before.heapPages slot), ∀ pt other, other < totalPages →
    (after.pagusrTable pt other).present = true →
      after.frameOf pt other = after.frameOf child page → pt = child ∧ other = page
  contents : ∀ page ∈ forkedPages (before.heapPages slot), ∀ offset < pageSize,
    after.ram (after.frameOf child page) offset = before.ram (before.frameOf father page) offset
  code : ∀ page, pagLogInitCode ≤ page → page < pagLogInitCode + numPagCode →
    (after.pagusrTable child page).present = true ∧
      after.frameOf child page = before.frameOf father page
  window : ∀ page ∈ windowPages (before.heapPages slot), page < totalPages
  father : after.pagusrTable father = before.pagusrTable father
  others : ∀ frame, numPagKernel ≤ frame → frame < totalPages →
    before.physMem frame = .usedFrame → after.ram frame = before.ram frame

/-- The lowest free frames, as many as the fork takes, are mapped nowhere but in entries
of the child's table that it writes. -/
def FreshUnmapped (mm : Mm) (child slot : DirSlot) : Prop :=
  ∀ frame ∈ lowest mm.available (numPagData + mm.heapPages slot), ∀ pt page, page < totalPages →
    (mm.pagusrTable pt page).present = true → mm.frameOf pt page = frame →
      pt = child ∧ page < pagLogInitHeap + mm.heapPages slot

/-! ## A fork that duplicates -/

theorem Forks.childPage (forks : mm.Forks after child father slot frames)
    {page : Nat} (member : page ∈ forkedPages (mm.heapPages slot)) :
    frames.getD (page - pagLogInitData) 0 ∈ frames ∧
      (after.pagusrTable child page).present = true ∧
      after.frameOf child page = frames.getD (page - pagLogInitData) 0 := by
  have sizes := memoryMap
  have length := forks.length
  rcases mem_forkedPages.mp member with ⟨lower, upper⟩
  have below : page - pagLogInitData < frames.length := by omega
  have here := forks.page_frame below
  rw [Nat.add_sub_cancel' lower] at here
  rw [List.getD_eq_getElem _ _ below]
  exact ⟨List.getElem_mem below, here.2, here.1⟩

theorem ProperParent.not_listed (proper : mm.ProperParent father slot)
    (forks : mm.Forks after child father slot frames) {page : Nat}
    (user : ProcessPage (mm.programbreakTable slot) page) : mm.frameOf father page ∉ frames := by
  intro listed
  have free := (mem_available.mp (forks.members _ listed)).2.2.2
  rw [(proper.inUse page user).2] at free
  cases free

theorem ProperParent.behind (proper : mm.ProperParent father slot) (heap : HeapBreak mm slot)
    {page : Nat} (behind : pagLogInitHeap + mm.heapPages slot ≤ page) (below : page < totalPages) :
    (mm.pagusrTable father page).present = false := by
  have sizes := memoryMap
  rw [← Bool.not_eq_true, proper.mapped page (by omega) below, heap.processPage]
  omega

theorem Forks.elsewhere (forks : mm.Forks after child father slot frames)
    (cleared : mm.Cleared) (apart : child ≠ father) {page : Nat}
    (present : (after.pagusrTable pt page).present = true)
    (listed : after.frameOf pt page ∈ frames) (inside : page < totalPages) :
    pt = child ∧ page ∈ forkedPages (mm.heapPages slot) ∨
      ∃ other number, number < totalPages ∧ (mm.pagusrTable other number).present = true ∧
        mm.frameOf other number = after.frameOf pt page ∧
        ¬(other = child ∧ number < pagLogInitHeap + mm.heapPages slot) := by
  have sizes := memoryMap
  have entry := forks.table pt page
  by_cases fresh : pt = child ∧ page ∈ forkedPages (mm.heapPages slot)
  · exact .inl fresh
  · apply Or.inr
    rw [if_neg fresh] at entry
    by_cases window : pt = father ∧ page ∈ windowPages (mm.heapPages slot)
    · rw [if_pos window] at entry
      rw [entry] at present
      cases present
    · rw [if_neg window] at entry
      by_cases low : pt = child ∧ page < pagLogInitData
      · -- the child's kernel and code entries are the father's
        rw [if_pos low, frameOf, userEntry_frame] at entry
        have number : after.frameOf pt page = mm.frameOf father page := by
          rw [frameOf, entry, frameOf]
        refine ⟨father, page, inside, ?_, number.symm, fun own => apart own.1.symm⟩
        rw [← Bool.not_eq_false]
        intro absent
        have reserved := (cleared father page absent).1
        have pooled := (mem_available.mp (forks.members _ listed)).2.1
        omega
      · rw [if_neg low] at entry
        rw [entry] at present
        refine ⟨pt, page, inside, present, (frameOf_congr entry).symm, fun own => ?_⟩
        have notLow : ¬page < pagLogInitData := fun below => low ⟨own.1, below⟩
        exact fresh ⟨own.1, mem_forkedPages.mpr ⟨Nat.not_lt.mp notLow, own.2⟩⟩

theorem Forks.duplicates (forks : mm.Forks after child father slot frames)
    (cleared : mm.Cleared) (proper : mm.ProperParent father slot)
    (copied : after = mm.allocateDir.1.forkCopied child father slot frames)
    (apart : child ≠ father) (unmapped : mm.FreshUnmapped child slot) :
    Duplicates mm after child father slot := by
  have sizes := memoryMap
  have user := @HeapBreak.processPage mm slot forks.heap
  rcases forks.ram copied with ⟨others, contents⟩
  have sources : ∀ page ∈ forkedPages (mm.heapPages slot), mm.frameOf father page ∉ frames := by
    intro page member
    rcases mem_forkedPages.mp member with ⟨lower, upper⟩
    exact proper.not_listed forks (user.mpr ⟨by omega, upper⟩)
  refine ⟨fun page member => ?_, fun page member pt other inside present same => ?_,
    fun page member offset inside => ?_, fun page lower upper => ?_, fun page member => ?_, ?_,
    fun frame _ _ used => ?_⟩
  · rcases forks.childPage member with ⟨listed, present, number⟩
    rw [number]
    exact ⟨present, (mem_available.mp (forks.members _ listed)).2.2.2⟩
  · rcases forks.childPage member with ⟨listed, -, number⟩
    have here : after.frameOf pt other ∈ frames := by
      rw [same, number]
      exact listed
    rcases forks.elsewhere cleared apart present here inside with ⟨own, fresh⟩ | stale
    · subst own
      rw [(forks.childPage fresh).2.2, number] at same
      have length := forks.length
      have range := mem_forkedPages.mp member
      have otherRange := mem_forkedPages.mp fresh
      have index := getD_inj forks.nodup (by omega) (by omega) same
      exact ⟨rfl, by omega⟩
    · rcases stale with ⟨table, page, below, mapped, named, outside⟩
      refine absurd (unmapped _ ?_ table page below mapped named) outside
      rw [← forks.lowest, List.mem_toFinset]
      exact here
  · rw [(forks.childPage member).2.2]
    exact contents apart sources page member offset inside
  · have entry := forks.table child page
    rw [if_neg fun fresh => by have := mem_forkedPages.mp fresh.2; omega,
      if_neg fun window => apart window.1, if_pos ⟨rfl, by omega⟩, frameOf,
      userEntry_frame] at entry
    rw [frameOf, entry]
    exact ⟨rfl, rfl⟩
  · have fits := forks.fits
    have range := mem_windowPages.mp member
    omega
  · funext page
    rw [forks.table, if_neg fun fresh => apart fresh.1.symm]
    split
    · rename_i window
      have range := mem_windowPages.mp window.2
      have fits := forks.fits
      have absent := proper.behind forks.heap range.1 (by omega)
      exact ((cleared father page absent).2 (by omega)).symm
    · rw [if_neg fun low => apart low.1.symm]
  · apply others
    intro listed
    have free := (mem_available.mp (forks.members _ listed)).2.2.2
    rw [used] at free
    cases free

theorem Forks.of_duplicates (forks : mm.Forks after child father slot frames)
    (proper : mm.ProperParent father slot)
    (duplicates : Duplicates mm after child father slot) :
    child ≠ father ∧ mm.FreshUnmapped child slot := by
  have sizes := memoryMap
  have user := @HeapBreak.processPage mm slot forks.heap
  constructor
  · intro own
    have first : pagLogInitData ∈ forkedPages (mm.heapPages slot) :=
      mem_forkedPages.mpr ⟨Nat.le_refl _, by omega⟩
    have free := (duplicates.mapped _ first).2
    have same : after.frameOf child pagLogInitData = mm.frameOf father pagLogInitData := by
      rw [own]
      exact frameOf_congr (congrFun duplicates.father _)
    rw [same, (proper.inUse _ (user.mpr ⟨by omega, by omega⟩)).2] at free
    cases free
  · intro frame member table page inside present named
    rw [← forks.lowest, List.mem_toFinset] at member
    rcases List.getElem_of_mem member with ⟨index, below, listed⟩
    have length := forks.length
    have number := (forks.page_frame below).1
    have range : pagLogInitData + index ∈ forkedPages (mm.heapPages slot) :=
      mem_forkedPages.mpr ⟨by omega, by omega⟩
    by_contra outside
    have entry := forks.table table page
    rw [if_neg fun fresh => outside ⟨fresh.1, (mem_forkedPages.mp fresh.2).2⟩] at entry
    by_cases window : table = father ∧ page ∈ windowPages (mm.heapPages slot)
    · rcases window with ⟨own, range⟩
      subst own
      rw [proper.behind forks.heap (mem_windowPages.mp range).1 inside] at present
      cases present
    · rw [if_neg window, if_neg fun low => outside ⟨low.1, by omega⟩] at entry
      have still : (after.pagusrTable table page).present = true := by rw [entry]; exact present
      have frames : after.frameOf table page = after.frameOf child (pagLogInitData + index) := by
        rw [number, listed, ← named]
        exact frameOf_congr entry
      rcases duplicates.nowhereElse _ range table page inside still frames with ⟨own, same⟩
      subst same
      exact outside ⟨own, (mem_forkedPages.mp range).2⟩

/-! ## Entries that are not present -/

def EntriesKept (mm after : Mm) : Prop :=
  ∀ pt page, after.pagusrTable pt page = .zero ∨ (after.pagusrTable pt page).present = true ∨
    after.pagusrTable pt page = mm.pagusrTable pt page

theorem Cleared.kept (cleared : mm.Cleared) (kept : EntriesKept mm after) : after.Cleared := by
  intro pt page absent
  rcases kept pt page with deleted | present | same
  · rw [frameOf, deleted]
    exact ⟨by decide, fun _ => rfl⟩
  · rw [present] at absent
    cases absent
  · rw [same] at absent
    rw [frameOf_congr same, same]
    exact cleared pt page absent

theorem EntriesKept.of_same (same : after.pagusrTable = mm.pagusrTable) : EntriesKept mm after :=
  fun _ _ => .inr (.inr (by rw [same]))

theorem EntriesKept.unmap (pages : List Nat) (same : mm.pagusrTable = after.pagusrTable) :
    EntriesKept mm (after.unmapPages pt pages) := by
  intro other page
  by_cases own : other = pt
  · subst own
    rw [unmapPages_table, same]
    split
    · exact .inl rfl
    · exact .inr (.inr rfl)
  · rw [unmapPages_other after pages own, same]
    exact .inr (.inr rfl)

theorem SbrkEffect.entriesKept {increment : Int} (effect : SbrkEffect mm pt slot increment after) :
    EntriesKept mm after := by
  cases effect with
  | unchanged => exact .of_same rfl
  | grown frames positive inHeap found lower upper =>
      intro other page
      change ((mm.mark frames .usedFrame).mapPages pt _ frames).pagusrTable other page = _ ∨
        (((mm.mark frames .usedFrame).mapPages pt _ frames).pagusrTable other page).present = _ ∨
        ((mm.mark frames .usedFrame).mapPages pt _ frames).pagusrTable other page = _
      by_cases own : other = pt
      · subst own
        rw [mapPages_table]
        split
        · exact .inr (.inl rfl)
        · exact .inr (.inr rfl)
      · rw [mapPages_other _ _ frames own]
        exact .inr (.inr rfl)
  | shrunk negative lower upper aboveZero => exact .unmap _ rfl

theorem Forks.entriesKept (forks : mm.Forks after child father slot frames) :
    EntriesKept mm after := by
  intro pt page
  rw [forks.table]
  split
  · exact .inr (.inl rfl)
  · split
    · exact .inl rfl
    · split
      · exact .inr (.inl rfl)
      · exact .inr (.inr rfl)

theorem ForkFails.entriesKept (fails : mm.ForkFails after child father slot) :
    EntriesKept mm after := by
  intro pt page
  rw [fails.table]
  split
  · exact .inr (.inl rfl)
  · exact .inr (.inr rfl)

theorem releaseDir_entriesKept (managed : mm.Managed)
    (released : mm.releaseDir pt slot = .ok after) : EntriesKept mm after := by
  have outcome := (releaseDir_eq_ok (managed.breaks slot)).mp released
  split at outcome
  · rw [outcome.2]
    exact .unmap _ rfl
  · rw [outcome]
    exact .of_same rfl

end Mm

open Processes in
theorem ProcessStep.entriesKept {view after : Processes} {caller : TaskId} {event : Event}
    (step : ProcessStep view caller event after) (typed : event.WellTyped)
    (managed : view.mm.Managed) : Mm.EntriesKept view.mm after.mm := by
  cases step with
  | keeps event after keeps full =>
      rw [keeps.mm]
      exact .of_same rfl
  | noMemory child rest free mm outOfFrames => exact (managed.forkFails outOfFrames).entriesKept
  | forked child rest free mm copied =>
      rcases managed.forks copied with ⟨frames, forks, -⟩
      exact forks.entriesKept
  | cloned function stack child rest free => exact .of_same rfl
  | exited mm freed => exact Mm.releaseDir_entriesKept managed freed
  | moved amount mm result outcome =>
      exact (Mm.sbrk_effect typed (managed.breaks _) managed.first outcome).entriesKept

theorem boot_entry (machine : Machine) (pt : DirSlot) (page : Nat) :
    (Mm.frameOf (machine.bootCore 0 1).mm pt page < numPagKernel ∧
        (numPagKernel ≤ page → (machine.bootCore 0 1).mm.pagusrTable pt page = .zero)) ∨
      ((machine.bootCore 0 1).mm.pagusrTable pt page).present = true ∧
        (machine.bootCore 0 1).mm.physMem (Mm.frameOf (machine.bootCore 0 1).mm pt page) =
          .usedFrame := by
  have sizes := memoryMap
  have initial : (machine.initialEntry page).pbaseAddr.toNat < numPagKernel ∧
      (numPagKernel ≤ page → machine.initialEntry page = .zero) := by
    unfold Machine.initialEntry
    split
    · exact ⟨by decide, fun _ => rfl⟩
    · rename_i inside
      have number : (BitVec.ofNat 20 page).toNat < numPagKernel := by
        rw [BitVec.toNat_ofNat, Nat.mod_eq_of_lt (by omega)]
        omega
      split
      · exact ⟨number, fun above => by omega⟩
      · exact ⟨number, fun above => by omega⟩
  have used : ∀ rw taken, taken < 28 →
      (Mm.bootEntry rw (numPagKernel + 2 * taken)).present = true ∧
        (machine.bootCore 0 1).mm.physMem
          (Mm.bootEntry rw (numPagKernel + 2 * taken)).pbaseAddr.toNat = .usedFrame := by
    intro rw taken few
    have number : (Mm.bootEntry rw (numPagKernel + 2 * taken)).pbaseAddr.toNat =
        numPagKernel + 2 * taken := Mm.userEntry_toNat (by omega)
    apply And.intro rfl
    rw [number, boot_physMem, takenMark, if_pos (.inr ⟨by omega, by omega⟩)]
  rw [Mm.frameOf, boot_table]
  split
  · rw [Machine.firstTable]
    split
    · exact .inr (used true _ (by omega))
    · split
      · exact .inr (used false _ (by omega))
      · exact .inl initial
  · exact .inl initial

theorem boot_cleared (machine : Machine) : (machine.bootCore 0 1).mm.Cleared := by
  intro pt page absent
  rcases boot_entry machine pt page with empty | ⟨present, -⟩
  · exact empty
  · rw [present] at absent
    cases absent

theorem reachable_cleared {machine : Machine} {history : List Recorded} {last : SequenceKernel}
    (reaches : (checkedZeos machine).Reaches history last) : last.core.mm.Cleared := by
  let Holds (view : Processes) : Prop := view.mm.Managed ∧ view.mm.Cleared
  have holds : Holds last.processes := by
    apply @processes_invariant machine history last Holds reaches
      ⟨boot_managed machine, boot_cleared machine⟩
    intro transition member _ step holds
    have typed := wellTyped_of_mem reaches member
    exact ⟨step.managed typed holds.1, holds.2.kept (step.entriesKept typed holds.1)⟩
  exact holds.2

/-! ## The call -/

theorem ForkOutcome.forks {kernel after : SequenceKernel} {result : Int} {child : TaskId}
    (outcome : ForkOutcome kernel (after, result)) (success : 0 ≤ result)
    (fresh : ¬kernel.Live child) (born : after.Live child) :
    ∃ mm, kernel.core.forkPages = .ok (mm, true) ∧ after.core.mm = mm ∧
      (after.core.task child).dirPagesBaseAddr =
        kernel.core.mm.freeSlot.getD kernel.currentTask.dirPagesBaseAddr := by
  cases outcome with
  | full empty => exact absurd success (by decide)
  | noMemory other rest free mm outOfFrames => exact absurd success (by decide)
  | forked other rest free mm copied =>
      have same : child = other := by
        by_contra different
        apply fresh
        simpa [Live, Kernel.forked, different] using born
      subst same
      refine ⟨mm, copied, ?_, ?_⟩
      · simp [Kernel.forked]
      · simp [Kernel.forked, currentTask]

/-! ## After start-up -/

theorem boot_processPage (machine : Machine) {page : Nat} (above : numPagKernel ≤ page)
    (below : page < pagLogInitHeap) :
    ((machine.bootCore 0 1).mm.pagusrTable 2 page).present = true ∧
      Mm.frameOf (machine.bootCore 0 1).mm 2 page = numPagKernel + 2 * (page - numPagKernel) := by
  have sizes := memoryMap
  have number : ∀ rw taken, taken < 28 →
      (Mm.bootEntry rw (numPagKernel + 2 * taken)).pbaseAddr.toNat = numPagKernel + 2 * taken :=
    fun rw taken few => Mm.userEntry_toNat (by omega)
  rw [Mm.frameOf, boot_table, if_pos rfl, Machine.firstTable]
  split
  · rw [number _ _ (by omega)]
    exact ⟨rfl, by omega⟩
  · rw [if_pos (by omega), number _ _ (by omega)]
    exact ⟨rfl, by omega⟩

theorem boot_properParent (machine : Machine) :
    Mm.ProperParent (machine.bootCore 0 1).mm 2 2 := by
  have sizes := memoryMap
  have heap := boot_heapBreak machine
  have user : ∀ {page}, Mm.ProcessPage ((machine.bootCore 0 1).mm.programbreakTable 2) page ↔
      numPagKernel ≤ page ∧ page < pagLogInitHeap := by
    intro page
    rw [heap.processPage, boot_heapPages, Nat.add_zero]
  refine ⟨heap.1, fun page above _ => ?_, fun page member => ?_, fun page other one two same => ?_⟩
  · rw [user]
    by_cases below : page < pagLogInitHeap
    · exact iff_of_true (boot_processPage machine above below).1 ⟨above, below⟩
    · rw [boot_unmapped machine 2 (Nat.not_lt.mp below)]
      exact iff_of_false Bool.false_ne_true fun inside => below inside.2
  · rcases user.mp member with ⟨above, below⟩
    rw [(boot_processPage machine above below).2, mem_poolFrames, boot_physMem, takenMark,
      if_pos (.inr ⟨by omega, by omega⟩)]
    exact ⟨⟨by omega, by omega, by omega⟩, rfl⟩
  · rcases user.mp one with ⟨above, below⟩
    rcases user.mp two with ⟨otherAbove, otherBelow⟩
    have first := (boot_processPage machine above below).2
    have second := (boot_processPage machine otherAbove otherBelow).2
    omega

theorem boot_freshUnmapped (machine : Machine) (child slot : DirSlot) :
    Mm.FreshUnmapped (machine.bootCore 0 1).mm child slot := by
  intro frame member pt page _ _ named
  rcases Mm.mem_available.mp (Finset.mem_filter.mp member).1 with ⟨-, above, -, free⟩
  rcases boot_entry machine pt page with ⟨reserved, -⟩ | ⟨-, used⟩
  · rw [named] at reserved
    exact absurd above (Nat.not_le.mpr reserved)
  · rw [named, free] at used
    cases used

theorem duplicates_iff {kernel after : PointerKernel} {result : Int} {child : TaskId}
    {slot : DirSlot} (mirrored : Mirrored kernel) (managed : kernel.core.mm.Managed)
    (cleared : kernel.core.mm.Cleared)
    (proper : kernel.core.mm.ProperParent kernel.currentTask.dirPagesBaseAddr
      kernel.currentTask.posInDirCounter)
    (found : kernel.core.mm.freeSlot = some slot)
    (call : (kernel.mapCore Core.enterSystem).sysFork = .ok (after, result))
    (success : 0 ≤ result) (fresh : ¬kernel.toSequences.Live child)
    (born : after.toSequences.Live child) :
    Mm.Duplicates kernel.core.mm after.core.mm (after.core.task child).dirPagesBaseAddr
        kernel.currentTask.dirPagesBaseAddr kernel.currentTask.posInDirCounter ↔
      slot ≠ kernel.currentTask.dirPagesBaseAddr ∧
        kernel.core.mm.FreshUnmapped slot kernel.currentTask.posInDirCounter := by
  have notLive : ¬Kernel.Live ⟨kernel.core.enterSystem, kernel.toSequences.queues⟩ child := by
    have processes := entered_processes kernel.toSequences
    have live := congrFun (congrArg Processes.live processes) child
    exact fun alive => fresh (live.mp alive)
  rcases (mirrored.sysFork call).forks success notLive born with ⟨mm, copied, memory, directory⟩
  have same : after.core.mm = mm := memory
  have own : (after.core.task child).dirPagesBaseAddr = slot := by
    refine Eq.trans directory ?_
    simp [found]
  have forked : kernel.core.mm.allocateDir.1.forkPages slot kernel.currentTask.dirPagesBaseAddr
      kernel.currentTask.posInDirCounter = .ok (mm, true) := by
    rw [← copied]
    simp [Core.forkPages, found, currentTask]
  rcases managed.forks forked with ⟨frames, forks, written⟩
  rw [same, own]
  constructor
  · exact forks.of_duplicates proper
  · rintro ⟨apart, unmapped⟩
    exact forks.duplicates cleared proper written apart unmapped

/-- A fork duplicates memory exactly when the child does not get the father's directory,
and the frames it is given are mapped nowhere before. -/
theorem forkDuplicates {machine : Machine} {kernel after : PointerKernel} {result : Int}
    {child : TaskId} {slot : DirSlot} (reachable : (zeos machine).Reachable kernel)
    (proper : kernel.core.mm.ProperParent kernel.currentTask.dirPagesBaseAddr
      kernel.currentTask.posInDirCounter)
    (found : kernel.core.mm.freeSlot = some slot)
    (call : (kernel.mapCore Core.enterSystem).sysFork = .ok (after, result))
    (success : 0 ≤ result) (fresh : ¬kernel.toSequences.Live child)
    (born : after.toSequences.Live child) :
    Mm.Duplicates kernel.core.mm after.core.mm (after.core.task child).dirPagesBaseAddr
        kernel.currentTask.dirPagesBaseAddr kernel.currentTask.posInDirCounter ↔
      slot ≠ kernel.currentTask.dirPagesBaseAddr ∧
        kernel.core.mm.FreshUnmapped slot kernel.currentTask.posInDirCounter := by
  rcases reachable with ⟨history, reaches⟩
  rcases run_toSequences reaches with ⟨mirrored, sequences⟩
  exact duplicates_iff mirrored (reachable_managed sequences) (reachable_cleared sequences) proper
    found call success fresh born

theorem forkDuplicates_boot :
    ∃ kernel after, (zeos Machine.sample).Reachable kernel ∧
      (kernel.mapCore Core.enterSystem).sysFork = .ok (after, 2) ∧
      Mm.Duplicates kernel.core.mm after.core.mm (after.core.task 2).dirPagesBaseAddr 2 2 := by
  rcases mirrored_boot Machine.sample with ⟨mirrored, sequences⟩
  have disciplined := boot_disciplined Machine.sample
  rcases boot_forkPages Machine.sample with ⟨frames, -, copied⟩
  have forks := @sysFork_copied ⟨Machine.sample.bootCore 0 1, bootSequences⟩ 2 _ _ disciplined rfl
    copied (by decide)
  rw [← sequences] at forks
  rcases mirrored.sysFork_ok forks with ⟨after, call, same⟩
  have fresh : ¬Kernel.Live (Kernel.toSequences ⟨Machine.sample.bootCore 0 1, bootLinks⟩) 2 := by
    rw [sequences]
    exact fun live => absurd (boot_live live) (by decide)
  have born : after.toSequences.Live 2 := by
    rw [same]
    exact .inr (.inr ProcessState.noConfusion)
  refine ⟨_, after, ⟨[], _, boot_pointers Machine.sample, .nil⟩, call, ?_⟩
  apply (forkDuplicates ⟨[], _, boot_pointers Machine.sample, .nil⟩
    (boot_properParent Machine.sample) (boot_freeSlot Machine.sample) call (by decide) fresh
    born).mpr
  exact ⟨by decide, boot_freshUnmapped Machine.sample 3 2⟩

/-! ## A frame that is still mapped -/

structure Mm.SameHeap (mm other : Mm) (pt slot : DirSlot) : Prop where
  physMem : mm.physMem = other.physMem
  table : mm.pagusrTable pt = other.pagusrTable pt
  programbreak : mm.programbreakTable slot = other.programbreakTable slot

namespace Mm.SameHeap

variable {mm other : Mm} {pt slot : DirSlot}

theorem available (same : mm.SameHeap other pt slot) :
    mm.available = other.available := by
  rw [Mm.available, Mm.available, same.physMem]

theorem heapPages (same : mm.SameHeap other pt slot) :
    mm.heapPages slot = other.heapPages slot := by
  rw [Mm.heapPages, Mm.heapPages, same.programbreak]

theorem frameOf (same : mm.SameHeap other pt slot) : mm.frameOf pt = other.frameOf pt := by
  funext page
  exact frameOf_congr (congrFun same.table page)

theorem shrunk (same : mm.SameHeap other pt slot) (increment : Int) :
    (mm.shrunk pt slot increment).SameHeap (other.shrunk pt slot increment) pt slot := by
  refine ⟨?_, ?_, ?_⟩
  · funext frame
    rw [shrunk_physMem, shrunk_physMem, same.programbreak, same.frameOf, same.physMem]
  · funext page
    rw [shrunk_table, shrunk_table, same.programbreak, same.table]
  · rw [shrunk_break, shrunk_break, same.programbreak]

theorem properParent (same : mm.SameHeap other pt slot)
    (proper : other.ProperParent pt slot) : mm.ProperParent pt slot := by
  rcases proper with ⟨lower, mapped, inUse, distinct⟩
  constructor
  · rw [same.programbreak]
    exact lower
  · rw [same.programbreak, same.table]
    exact mapped
  · rw [same.programbreak, same.frameOf, same.physMem]
    exact inUse
  · rw [same.programbreak, same.frameOf]
    exact distinct

end Mm.SameHeap

theorem Mm.ForkFails.sameHeap {mm after : Mm} {child father slot : DirSlot}
    (fails : mm.ForkFails after child father slot) (apart : child ≠ father) :
    after.SameHeap mm father slot := by
  refine ⟨fails.physMem, ?_, congrFun fails.programbreakTable slot⟩
  funext page
  rw [fails.table, if_neg fun shared => apart shared.1.symm]

theorem Mm.shrunk_otherTable {mm : Mm} {pt slot other : DirSlot} {increment : Int}
    (different : other ≠ pt) :
    (mm.shrunk pt slot increment).pagusrTable other = mm.pagusrTable other :=
  unmapPages_other mm (released _ _) different

theorem Mm.extended_of_sbrk {mm after : Mm} {pt slot : DirSlot} {increment : Int} {last : Nat}
    (heap : mm.HeapFromPool pt slot) (nonneg : 0 ≤ increment) (int : IsInt increment)
    (moved : mm.sbrk pt slot increment = .ok (after, some last)) :
    mm.extended pt slot increment.toNat = some after := by
  rw [sbrk_eq_extended heap nonneg int] at moved
  split at moved
  · cases moved
  · split at moved
    · rename_i extension
      cases moved
      exact extension
    · cases moved

theorem grownMm_undone {machine : Machine} {frames : List Nat} {pages : Nat} (positive : 0 < pages)
    (few : pages ≤ 356) (length : frames.length = pages)
    (moved : (machine.bootCore 0 1).mm.sbrk 2 2 ((pages * pageSize : Nat) : Int) =
      .ok (machine.grownMm frames, some heapStart)) :
    Mm.shrunk (machine.grownMm frames) 2 2 (-((pages * pageSize : Nat) : Int)) =
      (machine.bootCore 0 1).mm := by
  have sizes := memoryMap
  have bounds := heapBounds
  have int : IsInt ((pages * pageSize : Nat) : Int) := by
    simp only [IsInt, sizes]
    omega
  have heap := boot_heapFromPool machine
  have extension := Mm.extended_of_sbrk heap (by omega) int moved
  rw [Int.toNat_natCast] at extension
  rcases Mm.extended_grows heap extension with ⟨frame, grows⟩
  apply Mm.Grows.shrunk_eq heap _ grows
  · simp only [sizes]
    omega
  · rw [grownMm_break, length]
    simp only [sizes]
    omega
  · intro page below above
    apply boot_unmapped
    have start : (machine.bootCore 0 1).mm.programbreakTable 2 = heapStart := by
      rw [boot_programbreak, if_pos rfl]
    rw [start] at above
    simp only [sizes] at above ⊢
    omega

section Boot

def failedFork (mm after : Mm) : SequenceKernel :=
  finishCall (Kernel.forkFailed ⟨(grownAtBoot mm).core.enterSystem, (grownAtBoot mm).queues⟩ 2
    after, some (-enomem))

def shrunkAgain (mm after final : Mm) (last : Nat) : SequenceKernel :=
  finishCall (⟨(failedFork mm after).core.enterSystem.setMm final, (failedFork mm after).queues⟩,
    some (last : Int))

theorem failedFork_core {mm : Mm} (after final : Mm) (last : Nat)
    (counters : mm.dirCounter = fun slot => if slot.val ≤ 2 then 1 else 0) :
    (failedFork mm after).core.mm = after ∧
      (failedFork mm after).currentTask.dirPagesBaseAddr = 2 ∧
      (failedFork mm after).currentTask.posInDirCounter = 2 ∧
      (failedFork mm after).core.inKernel = false ∧
      (failedFork mm after).core.current ≠ (failedFork mm after).core.idleTask ∧
      (shrunkAgain mm after final last).core.mm = final ∧
      (shrunkAgain mm after final last).currentTask.dirPagesBaseAddr = 2 ∧
      (shrunkAgain mm after final last).currentTask.posInDirCounter = 2 ∧
      (shrunkAgain mm after final last).core.globalPID = 2 ∧
      (shrunkAgain mm after final last).queues.elements .freequeue = [3, 4, 5, 6, 7, 8, 9] := by
  cases mm with
  | mk physMem table dirCounter breaks ram =>
      dsimp only at counters
      subst counters
      exact ⟨rfl, rfl, rfl, rfl, show (1 : TaskId) ≠ 0 by decide, rfl, rfl, rfl, rfl, rfl⟩

theorem failedFork_stale {mm after : Mm} {frames : List Nat}
    (mapped : ∀ index < frames.length,
      mm.pagusrTable 2 (pagLogInitHeap + index) = Mm.userEntry (frames.getD index 0))
    (fails : mm.ForkFails after 3 2 2) (length : frames.length = mm.heapPages 2) {frame : Nat}
    (listed : frame ∈ frames) (small : frame < totalPages) :
    ∃ page, page < totalPages ∧ (after.pagusrTable 3 page).present = true ∧
      after.frameOf 3 page = frame := by
  have fits := fails.heap.pages.2.2
  rcases List.getElem_of_mem listed with ⟨index, below, same⟩
  have entry := fails.table 3 (pagLogInitHeap + index)
  rw [if_pos ⟨rfl, Mm.mem_sharedPages.mpr (.inr ⟨by omega, by omega⟩)⟩] at entry
  have named : mm.frameOf 2 (pagLogInitHeap + index) = frame := by
    rw [Mm.frameOf, mapped index below, List.getD_eq_getElem _ _ below, same,
      Mm.userEntry_toNat small]
  rw [named] at entry
  refine ⟨pagLogInitHeap + index, by omega, by rw [entry]; rfl, ?_⟩
  rw [Mm.frameOf, entry, Mm.userEntry_toNat small]

theorem grownMm_entry {machine : Machine} {frames : List Nat} {index : Nat}
    (below : index < frames.length) :
    (machine.grownMm frames).pagusrTable 2 (pagLogInitHeap + index) =
      Mm.userEntry (frames.getD index 0) := by
  rw [Machine.grownMm, Mm.setBreak_pagusrTable, Mm.mapPages_table,
    if_pos ⟨Nat.le_add_right _ _, by omega⟩, Nat.add_sub_cancel_left]

theorem boot_exhausted {machine : Machine} {frames : List Nat} (length : frames.length = 356)
    (nodup : frames.Nodup)
    (members : ∀ frame ∈ frames, frame ∈ (machine.bootCore 0 1).mm.available) {frame : Nat}
    (available : frame ∈ (machine.bootCore 0 1).mm.available) : frame ∈ frames := by
  have subset : frames.toFinset ⊆ (machine.bootCore 0 1).mm.available :=
    fun frame listed => members frame (List.mem_toFinset.mp listed)
  have all := Finset.eq_of_subset_of_card_le subset (by
    rw [boot_available, List.toFinset_card_of_nodup nodup, length])
  rw [← all, List.mem_toFinset] at available
  exact available

theorem failed_run :
    ∃ frames after history,
      (checkedZeos Machine.sample).Reaches history
        (failedFork (Machine.sample.grownMm frames) after) ∧
      frames.length = 356 ∧
      (∀ frame ∈ (Machine.sample.bootCore 0 1).mm.available, frame ∈ frames) ∧
      (Machine.sample.bootCore 0 1).mm.sbrk 2 2 ((356 * pageSize : Nat) : Int) =
        .ok (Machine.sample.grownMm frames, some heapStart) ∧
      Mm.ForkFails (Machine.sample.grownMm frames) after 3 2 2 := by
  rcases @boot_grows 356 (by decide) with ⟨frames, ⟨length, nodup, members⟩, grows, moved⟩
  have start : (checkedZeos Machine.sample).Reaches _
      (grownAtBoot (Machine.sample.grownMm frames)) :=
    ⟨_, boot_sequences Machine.sample, .single grows⟩
  have found : (Machine.sample.grownMm frames).freeSlot = some 3 := boot_freeSlot Machine.sample
  have heap : Mm.HeapBreak (Machine.sample.grownMm frames) 2 := grownMm_heapBreak (by omega)
  have few : (Machine.sample.grownMm frames).available.card <
      numPagData + (Machine.sample.grownMm frames).heapPages 2 := by
    rw [grownMm_available nodup members, grownMm_heapPages, length]
    decide
  have everything := fun frame => @boot_exhausted Machine.sample frames length nodup members frame
  rcases grownAtBoot_core (Machine.sample.grownMm frames) with ⟨memory, directory, slot, free⟩
  refine ⟨frames, ?_⟩
  generalize Machine.sample.grownMm frames = mm at *
  have managed : mm.Managed := reachable_managed start
  rcases Core.forkPages_outOfFrames managed (by rw [memory, slot]; exact heap.set)
    (by rw [memory, slot]; exact few) with ⟨after, outOfFrames⟩
  have fork := @fork_step Machine.sample (grownAtBoot mm) _ _
    (Event.enabled_call trivial Event.noConfusion rfl (show (1 : TaskId) ≠ 0 by decide))
    (sysFork_outOfFrames (reachable_disciplined ⟨_, start⟩) free outOfFrames)
  have failed : mm.allocateDir.1.forkPages 3 2 2 = .ok (after, false) := by
    rw [← outOfFrames, Core.forkPages, memory, directory, slot, found]
    rfl
  exact ⟨after, _, ⟨_, boot_sequences Machine.sample, .snoc (.single grows) fork⟩, length,
    everything, moved, managed.forkFails failed⟩

theorem stale_run :
    ∃ mm after final last history,
      (checkedZeos Machine.sample).Reaches history (shrunkAgain mm after final last) ∧
      (mm.dirCounter = fun slot => if slot.val ≤ 2 then 1 else 0) ∧
      final.SameHeap (Machine.sample.bootCore 0 1).mm 2 2 ∧ final.freeSlot = some 4 ∧
      ∀ frame ∈ (Machine.sample.bootCore 0 1).mm.available, ∃ page, page < totalPages ∧
        (final.pagusrTable 3 page).present = true ∧ final.frameOf 3 page = frame := by
  have sizes := memoryMap
  have bounds := heapBounds
  rcases failed_run with ⟨frames, after, history, reaches, length, everything, moved, fails⟩
  have undone := grownMm_undone (by decide) (by decide) length moved
  have counters : (Machine.sample.grownMm frames).dirCounter = _ :=
    funext (boot_dirCounter Machine.sample)
  have found : (Machine.sample.grownMm frames).freeSlot = some 3 := boot_freeSlot Machine.sample
  have mapped := fun index => @grownMm_entry Machine.sample frames index
  have pages := @grownMm_heapPages Machine.sample frames
  have breaks := @grownMm_break Machine.sample frames
  generalize Machine.sample.grownMm frames = mm at *
  have same := fails.sameHeap (by decide)
  let amount : Int := -((356 * pageSize : Nat) : Int)
  have final : (after.shrunk 2 2 amount).SameHeap (Machine.sample.bootCore 0 1).mm 2 2 := by
    rw [← undone]
    exact same.shrunk amount
  have top := congrFun fails.programbreakTable 2
  rw [breaks, length] at top
  have shrinks : after.sbrk 2 2 amount =
      .ok (after.shrunk 2 2 amount, some (after.programbreakTable 2)) := by
    apply Mm.sbrk_eq_unmapped <;> simp only [top, amount, sizes] <;> omega
  rcases failedFork_core after (after.shrunk 2 2 amount) (after.programbreakTable 2) counters with
    ⟨memory, directory, slot, userMode, notIdle, -⟩
  have typed : (Event.sbrk amount).WellTyped := by
    change IsInt amount
    simp only [IsInt, amount, sizes]
    omega
  have sbrk := @sbrk_step Machine.sample (failedFork mm after) amount (after.shrunk 2 2 amount)
    (after.programbreakTable 2) (Event.enabled_call typed Event.noConfusion userMode notIdle)
    (by rw [memory, directory, slot]; exact shrinks)
  rcases reaches with ⟨first, start, run⟩
  refine ⟨mm, after, after.shrunk 2 2 amount, after.programbreakTable 2, _,
    ⟨first, start, .snoc run sbrk⟩, counters, final, ?_, fun frame available => ?_⟩
  · have taken : (after.shrunk 2 2 amount).dirCounter =
        Function.update (fun slot : DirSlot => if slot.val ≤ 2 then 1 else 0) 3 1 := by
      rw [← counters]
      refine Eq.trans fails.dirCounter ?_
      rw [Mm.allocateDir_some found]
    rw [Mm.freeSlot, taken]
    decide
  · have table : (after.shrunk 2 2 amount).pagusrTable 3 = after.pagusrTable 3 :=
      Mm.shrunk_otherTable (by decide)
    rcases failedFork_stale mapped fails (by rw [pages]) (everything frame available)
      (Mm.mem_available.mp available).1 with ⟨page, inside, present, named⟩
    refine ⟨page, inside, by rwa [table], ?_⟩
    rw [← named]
    exact Mm.frameOf_congr (congrFun table page)

end Boot

/-- A fork that fails for want of frames leaves the father's heap mapped in the child's
table. When these frames have been given back, the next child gets them. -/
theorem forkDuplicates_stale :
    ∃ kernel after, (zeos Machine.sample).Reachable kernel ∧
      kernel.core.mm.ProperParent kernel.currentTask.dirPagesBaseAddr
        kernel.currentTask.posInDirCounter ∧
      kernel.core.mm.freeSlot = some 4 ∧
      (kernel.mapCore Core.enterSystem).sysFork = .ok (after, 2) ∧
      ¬kernel.toSequences.Live 3 ∧ after.toSequences.Live 3 ∧
      ¬Mm.Duplicates kernel.core.mm after.core.mm (after.core.task 3).dirPagesBaseAddr
        kernel.currentTask.dirPagesBaseAddr kernel.currentTask.posInDirCounter := by
  have sizes := memoryMap
  rcases stale_run with ⟨mm, failed, final, last, labels, run, counters, same, found, stale⟩
  rcases reaches_of_sequences run with ⟨history, kernel, reaches, -, sequences⟩
  rcases run_toSequences reaches with ⟨mirrored, reached⟩
  rcases failedFork_core failed final last counters with
    ⟨-, -, -, -, -, memory, directory, slot, number, free⟩
  rw [← sequences] at memory directory slot number free
  change kernel.core.mm = final at memory
  change kernel.currentTask.dirPagesBaseAddr = 2 at directory
  change kernel.currentTask.posInDirCounter = 2 at slot
  change kernel.core.globalPID = 2 at number
  subst memory
  have heap : Mm.HeapBreak kernel.core.mm 2 := by
    rw [Mm.HeapBreak, same.programbreak]
    exact boot_heapBreak Machine.sample
  have pages : kernel.core.mm.heapPages 2 = 0 := by rw [same.heapPages, boot_heapPages]
  have available : kernel.core.mm.available.card = 356 := by rw [same.available, boot_available]
  have proper := same.properParent (boot_properParent Machine.sample)
  have readable : kernel.core.mm.Readable 2 2 := by
    intro page member
    have mapped := boot_readable Machine.sample page
    rw [boot_heapPages, ← pages] at mapped
    rw [Mm.Mapped, same.table]
    exact mapped member
  rcases @Core.forkPages_copied kernel.core 4 2 2 directory slot found heap (by omega) readable
    (by omega) with ⟨frames, -, copied⟩
  have forks := sysFork_copied mirrored.disciplined free copied
    (show kernel.core.globalPID < _ by omega)
  rcases mirrored.sysFork_ok forks with ⟨after, call, forked⟩
  have fresh : ¬kernel.toSequences.Live 3 := by
    intro live
    have absent := mirrored.disciplined.live_not_free live
    rw [free] at absent
    exact absent (by decide)
  have born : after.toSequences.Live 3 := by
    rw [forked]
    exact .inr (.inr ProcessState.noConfusion)
  rw [show kernel.toSequences.core.globalPID = 2 from number] at call
  have father : kernel.core.mm.ProperParent kernel.currentTask.dirPagesBaseAddr
      kernel.currentTask.posInDirCounter := by
    rw [directory, slot]
    exact proper
  refine ⟨kernel, after, reaches.reachable, father, found, call, fresh, born, fun duplicates => ?_⟩
  have unmapped := ((duplicates_iff mirrored (reachable_managed reached) (reachable_cleared reached)
    father found call (by decide) fresh born).mp duplicates).2
  -- the first frame that the child gets was in the heap
  have nonempty : kernel.core.mm.available.Nonempty := Finset.card_pos.mp (by omega)
  let least := kernel.core.mm.available.min' nonempty
  have taken : least ∈ lowest kernel.core.mm.available
      (numPagData + kernel.core.mm.heapPages kernel.currentTask.posInDirCounter) := by
    rw [slot, pages]
    have first : Least kernel.core.mm.available (.some least) :=
      ⟨Finset.min'_mem _ nonempty, fun other => Finset.min'_le _ other⟩
    exact lowest_succ first 19 ▸ Finset.mem_insert_self _ _
  rcases stale least (same.available ▸ Finset.min'_mem _ nonempty) with
    ⟨page, inside, present, named⟩
  exact absurd (unmapped least taken 3 page inside present named).1 (by decide)

end Zeos
