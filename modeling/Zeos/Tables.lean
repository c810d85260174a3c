import Zeos.Processes

/-! # Page-table entries

What the routines of memory management can do to a page-table entry, and what
this means for the entries of user pages in a run.
-/

namespace Zeos

open Foundation Kernel

namespace Mm

/-- Every page-table entry is as before, cleared, or one that `set_ss_pag` writes. -/
def Rewrites (before after : Mm) : Prop :=
  ∀ pt page, after.pagusrTable pt page = before.pagusrTable pt page ∨
    after.pagusrTable pt page = .zero ∨ ∃ frame, after.pagusrTable pt page = userEntry frame

theorem Rewrites.of_tables {before after : Mm} (same : after.pagusrTable = before.pagusrTable) :
    Rewrites before after := by
  intro pt page
  rw [same]
  exact .inl rfl

theorem Rewrites.trans {first second third : Mm} (one : Rewrites first second)
    (two : Rewrites second third) : Rewrites first third := by
  intro pt page
  rcases two pt page with same | written
  · rw [same]
    exact one pt page
  · exact .inr written

theorem Rewrites.setEntry (mm : Mm) (pt : DirSlot) (page : Nat) {entry : PageTableEntry}
    (written : entry = .zero ∨ ∃ frame, entry = userEntry frame) :
    Rewrites mm (mm.setEntry pt page entry) := by
  intro other number
  by_cases here : other = pt ∧ number = page
  · rcases here with ⟨samePt, samePage⟩
    subst samePt samePage
    simpa [Mm.setEntry] using .inr written
  · apply Or.inl
    by_cases samePt : other = pt
    · subst samePt
      have different : number ≠ page := fun same => here ⟨rfl, same⟩
      simp [Mm.setEntry, different]
    · simp [Mm.setEntry, samePt]

abbrev Rewriting (mm : Mm) (result : Except Fault Mm) : Prop :=
  Ensures OfMemory (Rewrites mm) result

section Routines

variable {mm : Mm} {pt : DirSlot}

theorem Rewriting.after {middle : Mm} {result : Except Fault Mm} (first : Rewrites mm middle)
    (rest : Rewriting middle result) : Rewriting mm result :=
  rest.mono fun _ => first.trans

theorem Rewriting.bind {first : Except Fault Mm} {next : Mm → Except Fault Mm}
    (start : Rewriting mm first) (rest : ∀ middle, Rewriting middle (next middle)) :
    Rewriting mm (first >>= next) :=
  Ensures.bind start fun middle rewrites => (rest middle).after rewrites

theorem Rewriting.countedLoop {body : Nat → Mm → Except Fault Mm}
    (each : ∀ index current, Rewriting current (body index current)) (start count : Nat)
    (mm : Mm) : Rewriting mm (countedLoop body start count mm) := by
  induction count generalizing start mm with
  | zero => exact .ok (.of_tables rfl)
  | succ count induction =>
      rw [countedLoop_succ]
      exact (each start mm).bind fun middle => induction (start + 1) middle

theorem setSsPag_rewriting (mm : Mm) (pt : DirSlot) (page frame : Nat) :
    Rewriting mm (mm.setSsPag pt page frame) := by
  unfold setSsPag
  split
  · exact .ok (.setEntry mm pt page (.inr ⟨frame, rfl⟩))
  · exact .error trivial

theorem delSsPag_rewriting (mm : Mm) (pt : DirSlot) (page : Nat) :
    Rewriting mm (mm.delSsPag pt page) := by
  unfold delSsPag
  split
  · exact .ok (.setEntry mm pt page (.inl rfl))
  · exact .error trivial

@[simp] theorem setBreak_pagusrTable (mm : Mm) (slot : DirSlot) (address : Nat) :
    (mm.setBreak slot address).pagusrTable = mm.pagusrTable := rfl

@[simp] theorem freeFrame_pagusrTable (mm : Mm) (frame : Nat) :
    (mm.freeFrame frame).pagusrTable = mm.pagusrTable := by
  unfold freeFrame
  split <;> rfl

@[simp] theorem freeFrames_pagusrTable (mm : Mm) (frames : List Nat) :
    (mm.freeFrames frames).pagusrTable = mm.pagusrTable := by
  unfold freeFrames
  induction frames generalizing mm with
  | nil => rfl
  | cons frame frames induction =>
      rw [List.foldl_cons, induction, freeFrame_pagusrTable]

@[simp] theorem allocFrame_pagusrTable (mm : Mm) :
    mm.allocFrame.1.pagusrTable = mm.pagusrTable :=
  (allocFrame_frame mm).1

@[simp] theorem allocFrames_pagusrTable (count : Nat) (mm : Mm) (allocated : List Nat) :
    (allocFrames count mm allocated).1.pagusrTable = mm.pagusrTable := by
  induction count generalizing mm allocated with
  | zero => rfl
  | succ count induction =>
      have tables := allocFrame_pagusrTable mm
      unfold allocFrames
      generalize mm.allocFrame = allocation at tables
      rcases allocation with ⟨middle, result⟩
      cases result with
      | none => exact (freeFrames_pagusrTable middle allocated).trans tables
      | some frame => exact (induction middle _).trans tables

theorem allocateDir_eq (mm : Mm) :
    mm.allocateDir.1 = { mm with dirCounter := mm.allocateDir.1.dirCounter } := by
  unfold allocateDir
  cases mm.freeSlot <;> rfl

theorem releasePage_rewriting (pt : DirSlot) (page : Nat) (mm : Mm) :
    Rewriting mm (releasePage pt page mm) := by
  apply Ensures.bind (getFrame_failsOnly mm pt page)
  intro frame _
  exact (delSsPag_rewriting _ pt page).after (.of_tables (freeFrame_pagusrTable mm frame))

theorem freeUserPages_rewriting (mm : Mm) (pt slot : DirSlot) :
    Rewriting mm (mm.freeUserPages pt slot) := by
  apply (Rewriting.countedLoop (releasePage_rewriting pt) _ _ mm).bind
  intro middle
  exact .countedLoop (releasePage_rewriting pt) _ _ middle

theorem releaseDir_rewriting (mm : Mm) (pt slot : DirSlot) :
    Rewriting mm (mm.releaseDir pt slot) := by
  let released := { mm with dirCounter := Function.update mm.dirCounter pt (mm.dirCounter pt - 1) }
  have uncounted : Rewrites mm released := .of_tables rfl
  change Rewriting mm (if released.dirCounter pt = 0 then released.freeUserPages pt slot
    else .ok released)
  split
  · exact (freeUserPages_rewriting released pt slot).after uncounted
  · exact .ok uncounted

theorem copyEntry_rewriting (child father : DirSlot) (page : Nat) (mm : Mm) :
    Rewriting mm (copyEntry child father page mm) := by
  apply Ensures.bind (getFrame_failsOnly mm father page)
  intro frame _
  exact setSsPag_rewriting mm child page frame

theorem storeByte_pagusrTable {mm stored : Mm} {address : Nat} {byte : UInt8}
    (finished : storeByte pt mm address byte = .ok stored) :
    stored.pagusrTable = mm.pagusrTable := by
  rcases storeByte_inv finished with ⟨place, -, -, same⟩
  rw [same]

theorem copyData_rewriting (mm : Mm) (pt : DirSlot) (start dest : Nat) (size : Int) :
    Rewriting mm (mm.copyData pt start dest size) where
  of_ok copied := by
    have keeps : ∀ state address byte next, Rewrites mm state →
        (through pt).store state address byte = .ok next → Rewrites mm next := by
      intro state address byte next kept stored
      exact kept.trans (.of_tables (storeByte_pagusrTable stored))
    exact ByteMemory.copy_keeps keeps (.of_tables rfl) copied
  of_error failed := (ByteMemory.copy_failsOnly (loadByte_failsOnly pt) (storeByte_failsOnly pt)
    _ _ _ _).of_error failed

theorem forkCopyPage_rewriting (child father : DirSlot) (heapPages : Int) (frames : List Nat)
    (i : Nat) (mm : Mm) : Rewriting mm (forkCopyPage child father heapPages frames i mm) := by
  apply (setSsPag_rewriting mm child _ _).bind
  intro mapped
  apply (setSsPag_rewriting mapped father _ _).bind
  intro window
  apply (copyData_rewriting window father _ _ _).bind
  intro copied
  exact delSsPag_rewriting copied father _

theorem forkShare_rewriting (child father slot : DirSlot) (mm : Mm) :
    Rewriting mm (forkShare child father slot mm) := by
  apply (Rewriting.countedLoop (copyEntry_rewriting child father) _ _ mm).bind
  intro code
  apply (Rewriting.countedLoop (copyEntry_rewriting child father) _ _ code).bind
  intro kernel
  exact .countedLoop (copyEntry_rewriting child father) _ _ kernel

theorem forkPages_rewriting (child father slot : DirSlot) (mm : Mm) :
    Ensures OfMemory (fun outcome => Rewrites mm outcome.1) (forkPages child father slot mm) := by
  apply Ensures.bind (forkShare_rewriting child father slot mm)
  intro shared rewrites
  have tables := allocFrames_pagusrTable (numPagData + shared.pagHeap slot).toNat shared []
  dsimp only
  generalize allocFrames (numPagData + shared.pagHeap slot).toNat shared [] = allocation at tables
  rcases allocation with ⟨middle, result⟩
  have allocated := rewrites.trans (.of_tables tables)
  cases result with
  | none => exact .ok allocated
  | some frames =>
      have copies := Rewriting.countedLoop
        (forkCopyPage_rewriting child father (shared.pagHeap slot) frames) 0
        (numPagData + shared.pagHeap slot).toNat middle
      exact Ensures.bind copies fun copied later => .ok (allocated.trans later)

theorem sbrkGrow_rewriting (pt slot : DirSlot) (endaddress : Nat) (mm : Mm) :
    Ensures OfMemory (fun outcome => Rewrites mm outcome.1) (sbrkGrow pt slot endaddress mm) := by
  unfold sbrkGrow
  generalize sbrkGrowth (mm.programbreakTable slot) endaddress = growth
  rcases growth with ⟨npages, tpentry⟩
  have tables := allocFrames_pagusrTable npages mm []
  dsimp only
  split
  · exact .error trivial
  · generalize allocFrames npages mm [] = allocation at tables
    rcases allocation with ⟨middle, result⟩
    have allocated : Rewrites mm middle := .of_tables tables
    cases result with
    | none => exact .ok allocated
    | some frames =>
        dsimp only
        split
        · exact .error trivial
        · have maps := Rewriting.countedLoop
            (fun i mm => setSsPag_rewriting mm pt (tpentry + i) (frames.getD i 0)) 0 npages middle
          exact Ensures.bind maps fun mapped later => .ok (allocated.trans later)

theorem sbrkShrink_rewriting (pt slot : DirSlot) (endaddress : Nat) (mm : Mm) :
    Rewriting mm (sbrkShrink pt slot endaddress mm) := by
  unfold sbrkShrink
  apply (Rewriting.countedLoop (fun i mm => releasePage_rewriting pt _ mm) _ _ mm).bind
  intro released
  split
  · exact releasePage_rewriting pt _ released
  · exact .ok (.of_tables rfl)

theorem sbrk_rewriting (pt slot : DirSlot) (increment : Int) (mm : Mm) :
    Ensures OfMemory (fun outcome => Rewrites mm outcome.1) (sbrk pt slot increment mm) := by
  unfold sbrk
  dsimp only
  split
  · exact .ok (.of_tables rfl)
  · split
    · apply (sbrkGrow_rewriting pt slot _ mm).bind
      rintro ⟨grown, allocated⟩ rewrites
      cases allocated with
      | false => exact .ok rewrites
      | true => exact .ok (rewrites.trans (.of_tables rfl))
    · split
      · apply Ensures.bind (sbrkShrink_rewriting pt slot _ mm)
        intro shrunk rewrites
        exact .ok (rewrites.trans (.of_tables rfl))
      · exact .ok (.of_tables rfl)

end Routines

/-! ## Single writes -/

section Writes

variable {mm after : Mm} {pt : DirSlot}

theorem setEntry_here (mm : Mm) (pt : DirSlot) (page : Nat) (entry : PageTableEntry) :
    (mm.setEntry pt page entry).pagusrTable pt page = entry := by
  simp [setEntry]

theorem setEntry_otherPage (mm : Mm) (pt : DirSlot) {page other : Nat} (entry : PageTableEntry)
    (different : other ≠ page) :
    (mm.setEntry pt page entry).pagusrTable pt other = mm.pagusrTable pt other := by
  simp [setEntry, different]

theorem setEntry_otherTable (mm : Mm) {pt other : DirSlot} (page : Nat) (entry : PageTableEntry)
    (different : other ≠ pt) :
    (mm.setEntry pt page entry).pagusrTable other = mm.pagusrTable other := by
  simp [setEntry, different]

theorem setSsPag_eq_ok {page frame : Nat} (written : mm.setSsPag pt page frame = .ok after) :
    after = mm.setEntry pt page (userEntry frame) := by
  unfold setSsPag at written
  split at written
  · cases written
    rfl
  · cases written

theorem copyEntry_eq_ok {child father : DirSlot} {page : Nat}
    (copied : copyEntry child father page mm = .ok after) :
    after = mm.setEntry child page (userEntry (mm.pagusrTable father page).pbaseAddr.toNat) := by
  rcases bind_eq_ok.mp copied with ⟨frame, found, written⟩
  unfold getFrame at found
  split at found
  · cases found
    exact setSsPag_eq_ok written
  · cases found

def OnlyTables (before after : Mm) : Prop :=
  after = { before with pagusrTable := after.pagusrTable }

theorem OnlyTables.refl (mm : Mm) : OnlyTables mm mm := rfl

theorem OnlyTables.trans {first second third : Mm} (one : OnlyTables first second)
    (two : OnlyTables second third) : OnlyTables first third := by
  rw [OnlyTables, two, one]

theorem forkShare_onlyTables {child father slot : DirSlot}
    (shared : forkShare child father slot mm = .ok after) : OnlyTables mm after := by
  have loops : ∀ {start count : Nat} {first last : Mm}, OnlyTables mm first →
      countedLoop (copyEntry child father) start count first = .ok last → OnlyTables mm last := by
    intro start count first last before finished
    apply countedLoop_invariant (fun _ current => OnlyTables mm current) finished before
    intro index current next _ _ earlier copied
    rw [copyEntry_eq_ok copied]
    exact earlier.trans rfl
  rcases bind_eq_ok.mp shared with ⟨code, copiedCode, rest⟩
  rcases bind_eq_ok.mp rest with ⟨kernel, copiedKernel, copiedHeap⟩
  exact loops (loops (loops (.refl mm) copiedCode) copiedKernel) copiedHeap

end Writes

/-! ## User pages -/

/-- What is mapped from the code on belongs to the user, and may be written above
the code. -/
def Guarded (mm : Mm) : Prop :=
  ∀ pt page, pagLogInitCode ≤ page → (mm.pagusrTable pt page).present = true →
    (mm.pagusrTable pt page).user = true ∧
      (pagLogInitData ≤ page → (mm.pagusrTable pt page).rw = true)

theorem Guarded.rewrites {before after : Mm} (guarded : Guarded before)
    (rewrites : Rewrites before after) : Guarded after := by
  intro pt page above present
  rcases rewrites pt page with same | cleared | ⟨frame, written⟩
  · rw [same] at present ⊢
    exact guarded pt page above present
  · rw [cleared] at present
    cases present
  · rw [written]
    exact ⟨rfl, fun _ => rfl⟩

theorem Guarded.setEntry {mm : Mm} (guarded : Guarded mm) (pt : DirSlot) {page : Nat}
    {entry : PageTableEntry} (allowed : pagLogInitCode ≤ page →
      entry.user = true ∧ (pagLogInitData ≤ page → entry.rw = true)) :
    Guarded (mm.setEntry pt page entry) := by
  intro other number above present
  by_cases samePt : other = pt
  · subst samePt
    by_cases samePage : number = page
    · subst samePage
      simpa [Mm.setEntry] using allowed above
    · simp only [Mm.setEntry, Function.update_self, Function.update_of_ne samePage] at present ⊢
      exact guarded other number above present
  · simp only [Mm.setEntry, Function.update_of_ne samePt] at present ⊢
    exact guarded other number above present

def Open (mm : Mm) (pt : DirSlot) : Prop :=
  ∀ page, pagLogInitCode ≤ page → (mm.pagusrTable pt page).present = true →
    (mm.pagusrTable pt page).rw = true ∧ (mm.pagusrTable pt page).user = true

theorem Open.rewrites {before after : Mm} {pt : DirSlot} (isOpen : Open before pt)
    (rewrites : Rewrites before after) : Open after pt := by
  intro page above present
  rcases rewrites pt page with same | cleared | ⟨frame, written⟩
  · rw [same] at present ⊢
    exact isOpen page above present
  · rw [cleared] at present
    cases present
  · rw [written]
    exact ⟨rfl, rfl⟩

theorem Open.entry_eq {mm : Mm} {pt : DirSlot} (isOpen : Open mm pt) {page : Nat}
    (above : pagLogInitCode ≤ page) (present : (mm.pagusrTable pt page).present = true) :
    userEntry (mm.pagusrTable pt page).pbaseAddr.toNat = mm.pagusrTable pt page := by
  have flags := isOpen page above present
  generalize mm.pagusrTable pt page = entry at present flags
  rcases entry with ⟨isPresent, rw, user, pbaseAddr⟩
  simp only at present flags
  simp [userEntry, present, flags]

theorem Guarded.isOpen {mm : Mm} (guarded : Guarded mm) {pt : DirSlot}
    (code : ∀ page, pagLogInitCode ≤ page → page < pagLogInitData →
      (mm.pagusrTable pt page).rw = true) : Open mm pt := by
  intro page above present
  have flags := guarded pt page above present
  refine ⟨?_, flags.1⟩
  rcases Nat.lt_or_ge page pagLogInitData with below | data
  · exact code page above below
  · exact flags.2 data

theorem mapFreshPages_guarded (pt : DirSlot) (rw : Bool) (count page : Nat) (mm : Mm)
    (guarded : Guarded mm) (allowed : page + count ≤ pagLogInitData ∨ rw = true) :
    Guarded (mapFreshPages rw pt count page mm) := by
  induction count generalizing page mm with
  | zero => exact guarded
  | succ count induction =>
      have allocated : Guarded mm.allocFrame.1 :=
        guarded.rewrites (.of_tables (allocFrame_pagusrTable mm))
      apply induction
      · apply allocated.setEntry
        intro above
        exact ⟨rfl, fun data => allowed.resolve_left (by omega)⟩
      · apply allowed.imp_left
        omega

end Mm

theorem boot_guarded (machine : Machine) : (machine.bootCore 0 1).mm.Guarded := by
  have initially (counters : DirSlot → Int) :
      Mm.Guarded { machine.initialMm with dirCounter := counters } := by
    intro pt page above present
    have beyond : page = 0 ∨ numPagKernel ≤ page := by
      rcases memoryMap with ⟨-, kernelPages, codePage, -⟩
      omega
    have absent : (machine.initialEntry page).present = false := by
      rw [Machine.initialEntry, if_pos beyond]
      rfl
    exact absurd present (Bool.eq_false_iff.mp absent)
  have code (counters : DirSlot → Int) := Mm.mapFreshPages_guarded 2 false numPagCode
    pagLogInitCode _ (initially counters) (.inl (le_refl _))
  have data (counters : DirSlot → Int) := Mm.mapFreshPages_guarded 2 true numPagData
    pagLogInitData _ (code counters) (.inr rfl)
  rw [bootCore_mm]
  apply Mm.Guarded.rewrites _ (.of_tables (Mm.setBreak_pagusrTable _ _ _))
  exact data _

theorem ProcessStep.guarded {view after : Processes} {caller : TaskId} {event : Event}
    (step : ProcessStep view caller event after) (guarded : view.mm.Guarded) :
    after.mm.Guarded := by
  have tables : ∀ {child : TaskId} {mm : Mm} {allocated : Bool},
      view.forkPages child = .ok (mm, allocated) → mm.Guarded := by
    intro child mm allocated copied
    have allocates : Mm.Rewrites view.mm view.mm.allocateDir.1 := by
      apply Mm.Rewrites.of_tables
      rw [Mm.allocateDir_eq]
    have rewrites := (Mm.forkPages_rewriting _ _ _ _).of_ok copied
    exact guarded.rewrites (allocates.trans rewrites)
  cases step with
  | keeps event after keeps full =>
      apply guarded.rewrites
      apply Mm.Rewrites.of_tables
      rw [keeps.mm]
  | noMemory child rest free mm outOfFrames => exact tables outOfFrames
  | forked child rest free mm copied => exact tables copied
  | cloned function stack child rest free => exact guarded
  | exited mm freed => exact guarded.rewrites ((Mm.releaseDir_rewriting _ _ _).of_ok freed)
  | moved amount mm result outcome =>
      exact guarded.rewrites ((Mm.sbrk_rewriting _ _ _ _).of_ok outcome)

theorem reachable_guarded {machine : Machine} {history : List (Transition SequenceKernel Event)}
    {last : SequenceKernel} (reaches : (checkedZeos machine).Reaches history last) :
    last.core.mm.Guarded :=
  @processes_invariant machine history last (fun view => view.mm.Guarded) reaches
    (boot_guarded machine) fun _ _ _ step guarded => step.guarded guarded

end Zeos
