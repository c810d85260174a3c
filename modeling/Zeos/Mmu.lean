import Zeos.Foundation.TranslationCache
import Zeos.Foundation.Refines
import Zeos.Frames

/-! # Memory management and the TLB

The routines that write page tables once more, together with the page directory in
CR3 and what the TLB may hold. Every write to a table is a step after which the TLB
may take up what the table in use has then.
-/

namespace Zeos

open Foundation

abbrev Tlb := TranslationCache Nat PageTableEntry fun entry => entry.present = true

structure Mmu where
  mm : Mm
  cr3 : DirSlot
  tlb : Tlb

namespace Mmu

def table (mmu : Mmu) : Nat → PageTableEntry := mmu.mm.pagusrTable mmu.cr3

/-- Memory management has changed something, at most one entry of a table. -/
def withMm (mmu : Mmu) (mm : Mm) : Mmu :=
  { mmu with mm := mm, tlb := mmu.tlb.fill (mm.pagusrTable mmu.cr3) }

def lift (change : Mm → Except Fault Mm) (mmu : Mmu) : Except Fault Mmu := do
  let mm ← change mmu.mm
  return mmu.withMm mm

def setCr3 (mmu : Mmu) (dir : DirSlot) : Mmu :=
  { mmu with cr3 := dir, tlb := .flush (mmu.mm.pagusrTable dir) }

/-- The part of `inner_task_switch` that concerns the directories: the new one is
loaded unless it is the old one. -/
def switchDir (mmu : Mmu) (old new : DirSlot) : Mmu :=
  if old = new then mmu else mmu.setCr3 new

/-! ## The routines -/

def forkShare (child father slot : DirSlot) (mmu : Mmu) : Except Fault Mmu := do
  let mmu ← countedLoop (fun page => lift (Mm.copyEntry child father page))
    pagLogInitCode numPagCode mmu
  let mmu ← countedLoop (fun page => lift (Mm.copyEntry child father page)) 0 numPagKernel mmu
  countedLoop (fun page => lift (Mm.copyEntry child father page)) pagLogInitHeap
    (mmu.mm.programbreakPage slot + 1 - pagLogInitHeap) mmu

def forkCopyPage (child father : DirSlot) (heapPages : Int) (frames : List Nat) (i : Nat)
    (mmu : Mmu) : Except Fault Mmu := do
  let pagenumber := frames.getD i 0
  let window := toUnsigned (pagLogInitData + numPagData + heapPages + i)
  let mmu ← mmu.lift fun mm => mm.setSsPag child (pagLogInitData + i) pagenumber
  let mmu ← mmu.lift fun mm => mm.setSsPag father window pagenumber
  let mmu ← mmu.lift fun mm =>
    mm.copyData father ((pagLogInitData + i) * pageSize) (window * pageSize) pageSize
  mmu.lift fun mm => mm.delSsPag father window

def forkPages (child father slot : DirSlot) (mmu : Mmu) : Except Fault (Mmu × Bool) := do
  let mmu ← forkShare child father slot mmu
  let heapPages := mmu.mm.pagHeap slot
  let count := (numPagData + heapPages).toNat
  match Mm.allocFrames count mmu.mm [] with
  | (mm, none) => return (mmu.withMm mm, false)
  | (mm, some frames) => do
      let mmu ← countedLoop (forkCopyPage child father heapPages frames) 0 count (mmu.withMm mm)
      return (mmu.setCr3 father, true)

def freeUserPages (mmu : Mmu) (pt slot : DirSlot) : Except Fault Mmu := do
  let mmu ← countedLoop (fun page => lift (Mm.releasePage pt page)) pagLogInitData numPagData mmu
  countedLoop (fun page => lift (Mm.releasePage pt page)) pagLogInitHeap
    (toSigned (mmu.mm.programbreakTable slot) / pageSize + 1 - pagLogInitHeap).toNat mmu

def releaseDir (mmu : Mmu) (pt slot : DirSlot) : Except Fault Mmu :=
  let mmu := mmu.withMm { mmu.mm with
    dirCounter := Function.update mmu.mm.dirCounter pt (mmu.mm.dirCounter pt - 1) }
  if mmu.mm.dirCounter pt = 0 then mmu.freeUserPages pt slot else .ok mmu

def sbrkGrow (pt slot : DirSlot) (endaddress : Nat) (mmu : Mmu) : Except Fault (Mmu × Bool) :=
  let (npages, tpentry) := Mm.sbrkGrowth (mmu.mm.programbreakTable slot) endaddress
  if Mm.arrayRoom < npages then .error (.stackOverflow npages)
  else match Mm.allocFrames npages mmu.mm [] with
  | (mm, none) => return (mmu.withMm mm, false)
  | (mm, some frames) =>
      if tpentry < numPagKernel then .error (.kernelPage tpentry)
      else do
        let mmu ← countedLoop
          (fun i => lift fun mm => mm.setSsPag pt (tpentry + i) (frames.getD i 0)) 0 npages
          (mmu.withMm mm)
        return (mmu, true)

def sbrkUnmap (pt slot : DirSlot) (endaddress : Nat) (mmu : Mmu) : Except Fault Mmu := do
  let iniPage := mmu.mm.programbreakTable slot / pageSize
  let newPage := max (endaddress / pageSize) pagLogInitHeap
  let npages := toUnsigned ((iniPage : Int) - newPage)
  let mmu ← countedLoop
    (fun i => lift (Mm.releasePage pt (toUnsigned ((iniPage : Int) - i)))) 0 npages mmu
  if endaddress % pageSize = 0 then mmu.lift (Mm.releasePage pt newPage) else return mmu

def sbrkShrink (pt slot : DirSlot) (endaddress : Nat) (mmu : Mmu) : Except Fault Mmu := do
  let mmu ← sbrkUnmap pt slot endaddress mmu
  return mmu.setCr3 pt

def sbrk (pt slot : DirSlot) (increment : Int) (mmu : Mmu) : Except Fault (Mmu × Option Nat) := do
  let endaddress := mmu.mm.endaddress slot increment
  let last := mmu.mm.programbreakTable slot
  let endPage := toSigned endaddress / pageSize
  if 0 ≤ increment ∧ (endPage < pagLogInitHeap ∨ totalPages < endPage) then
    return (mmu, none)
  else if 0 < increment then
    match ← mmu.sbrkGrow pt slot endaddress with
    | (mmu, false) => return (mmu, none)
    | (mmu, true) => return (mmu.withMm (mmu.mm.setBreak slot endaddress), some last)
  else if increment < 0 then
    let mmu ← mmu.sbrkShrink pt slot endaddress
    let belowheap := endaddress / pageSize < pagLogInitHeap
    return (mmu.withMm (mmu.mm.setBreak slot (if belowheap then heapStart else endaddress)),
      some last)
  else
    return (mmu.withMm (mmu.mm.setBreak slot endaddress), some last)

/-! ## Without the TLB

The routines do to memory management what those without a TLB do. -/

section Erasure

structure Erases {α β : Type} (Same : α → β → Prop) (result : Except Fault α)
    (plain : Except Fault β) : Prop where
  refines : Refines (fun _ => False) Same result plain

def Over (mmu : Mmu) (mm : Mm) : Prop := mmu.mm = mm

def OverWith {α : Type} (outcome : Mmu × α) (plain : Mm × α) : Prop :=
  outcome.1.mm = plain.1 ∧ outcome.2 = plain.2

theorem Erases.ok {α β : Type} {Same : α → β → Prop} {value : α} {plain : β}
    (same : Same value plain) : Erases Same (.ok value) (.ok plain) :=
  ⟨.ok same⟩

theorem Erases.of_ok {α β : Type} {Same : α → β → Prop} {result : Except Fault α}
    {plain : Except Fault β} (erases : Erases Same result plain) {value : α}
    (done : result = .ok value) : ∃ plainValue, plain = .ok plainValue ∧ Same value plainValue :=
  (erases.refines.of_defined fun _ _ => id).1 value done

theorem Erases.matched {α β : Type} {Same : α → β → Prop} {result : Except Fault α}
    {plain : Except Fault β} (erases : Erases Same result plain) {plainValue : β}
    (done : plain = .ok plainValue) : ∃ value, result = .ok value ∧ Same value plainValue :=
  erases.refines.of_ok done

theorem Erases.bind {α β γ δ : Type} {Same : α → β → Prop} {Later : γ → δ → Prop}
    {first : Except Fault α} {plain : Except Fault β} {next : α → Except Fault γ}
    {plainNext : β → Except Fault δ} (erases : Erases Same first plain)
    (rest : ∀ value result, Same value result → Erases Later (next value) (plainNext result)) :
    Erases Later (first >>= next) (plain >>= plainNext) :=
  ⟨erases.refines.bind fun value result same => (rest value result same).refines⟩

theorem Erases.countedLoop {body : Nat → Mmu → Except Fault Mmu}
    {plain : Nat → Mm → Except Fault Mm}
    (each : ∀ index mmu mm, Over mmu mm → Erases Over (body index mmu) (plain index mm))
    (start count : Nat) {mmu : Mmu} {mm : Mm} (covers : Over mmu mm) :
    Erases Over (Foundation.countedLoop body start count mmu)
      (Foundation.countedLoop plain start count mm) :=
  ⟨.countedLoop (fun index value result covers => (each index value result covers).refines)
    start count covers⟩

variable {mmu : Mmu} {mm : Mm}

theorem lift_erases (change : Mm → Except Fault Mm) (covers : Over mmu mm) :
    Erases Over (mmu.lift change) (change mm) := by
  rw [← covers, lift]
  cases change mmu.mm with
  | error failure => exact ⟨.error failure⟩
  | ok after => exact .ok rfl

theorem loop_erases (body : Nat → Mm → Except Fault Mm) (start count : Nat) (covers : Over mmu mm) :
    Erases Over (countedLoop (fun index => lift (body index)) start count mmu)
      (countedLoop body start count mm) :=
  .countedLoop (fun index _ _ covers => lift_erases (body index) covers) start count covers

theorem forkShare_erases (child father slot : DirSlot) (covers : Over mmu mm) :
    Erases Over (mmu.forkShare child father slot) (mm.forkShare child father slot) := by
  apply Erases.bind (loop_erases (Mm.copyEntry child father) pagLogInitCode numPagCode covers)
  intro code plainCode overCode
  apply Erases.bind (loop_erases (Mm.copyEntry child father) 0 numPagKernel overCode)
  intro kernel plainKernel overKernel
  cases overKernel
  exact loop_erases (Mm.copyEntry child father) _ _ rfl

theorem forkCopyPage_erases (child father : DirSlot) (heapPages : Int) (frames : List Nat)
    (i : Nat) (covers : Over mmu mm) :
    Erases Over (mmu.forkCopyPage child father heapPages frames i)
      (mm.forkCopyPage child father heapPages frames i) := by
  apply Erases.bind (lift_erases _ covers)
  intro mapped plainMapped overMapped
  apply Erases.bind (lift_erases _ overMapped)
  intro window plainWindow overWindow
  apply Erases.bind (lift_erases _ overWindow)
  intro copied plainCopied overCopied
  exact lift_erases _ overCopied

theorem forkPages_erases (child father slot : DirSlot) (covers : Over mmu mm) :
    Erases OverWith (mmu.forkPages child father slot) (mm.forkPages child father slot) := by
  apply Erases.bind (forkShare_erases child father slot covers)
  intro shared plain same
  cases same
  dsimp only
  generalize Mm.allocFrames (numPagData + shared.mm.pagHeap slot).toNat shared.mm [] = allocation
  rcases allocation with ⟨middle, result⟩
  cases result with
  | none => exact .ok ⟨rfl, rfl⟩
  | some frames =>
      have copies := Erases.countedLoop
        (fun i _ _ covers =>
          forkCopyPage_erases child father (shared.mm.pagHeap slot) frames i covers)
        0 (numPagData + shared.mm.pagHeap slot).toNat
          (show Over (shared.withMm middle) middle from rfl)
      exact Erases.bind copies fun copied plainCopied covers => .ok ⟨covers, rfl⟩

theorem freeUserPages_erases (pt slot : DirSlot) (covers : Over mmu mm) :
    Erases Over (mmu.freeUserPages pt slot) (mm.freeUserPages pt slot) := by
  apply Erases.bind (loop_erases (Mm.releasePage pt) pagLogInitData numPagData covers)
  intro data plain same
  cases same
  exact loop_erases (Mm.releasePage pt) _ _ rfl

theorem releaseDir_erases (pt slot : DirSlot) (covers : Over mmu mm) :
    Erases Over (mmu.releaseDir pt slot) (mm.releaseDir pt slot) := by
  cases covers
  let released := { mmu.mm with
    dirCounter := Function.update mmu.mm.dirCounter pt (mmu.mm.dirCounter pt - 1) }
  change Erases Over
    (if released.dirCounter pt = 0 then (mmu.withMm released).freeUserPages pt slot
      else .ok (mmu.withMm released))
    (if released.dirCounter pt = 0 then released.freeUserPages pt slot else .ok released)
  split
  · exact freeUserPages_erases pt slot rfl
  · exact .ok rfl

theorem sbrkGrow_erases (pt slot : DirSlot) (endaddress : Nat) (covers : Over mmu mm) :
    Erases OverWith (mmu.sbrkGrow pt slot endaddress) (mm.sbrkGrow pt slot endaddress) := by
  cases covers
  unfold sbrkGrow Mm.sbrkGrow
  generalize Mm.sbrkGrowth (mmu.mm.programbreakTable slot) endaddress = growth
  rcases growth with ⟨npages, tpentry⟩
  dsimp only
  split
  · exact ⟨.error _⟩
  · generalize Mm.allocFrames npages mmu.mm [] = allocation
    rcases allocation with ⟨middle, result⟩
    cases result with
    | none => exact .ok ⟨rfl, rfl⟩
    | some frames =>
        dsimp only
        split
        · exact ⟨.error _⟩
        · apply Erases.bind (loop_erases _ 0 npages (show Over (mmu.withMm middle) middle from rfl))
          intro mapped plain covers
          exact .ok ⟨covers, rfl⟩

theorem sbrkUnmap_erases (pt slot : DirSlot) (endaddress : Nat) (covers : Over mmu mm) :
    Erases Over (mmu.sbrkUnmap pt slot endaddress) (mm.sbrkShrink pt slot endaddress) := by
  cases covers
  apply Erases.bind (loop_erases _ _ _ rfl)
  intro released plain same
  cases same
  split
  · exact lift_erases _ rfl
  · exact .ok rfl

theorem sbrkShrink_erases (pt slot : DirSlot) (endaddress : Nat) (covers : Over mmu mm) :
    Erases Over (mmu.sbrkShrink pt slot endaddress) (mm.sbrkShrink pt slot endaddress) := by
  have unmaps := sbrkUnmap_erases pt slot endaddress covers
  unfold sbrkShrink
  generalize mm.sbrkShrink pt slot endaddress = plain at unmaps ⊢
  rw [← bind_pure plain]
  apply unmaps.bind
  intro unmapped plainUnmapped same
  exact .ok same

theorem sbrk_erases (pt slot : DirSlot) (increment : Int) (covers : Over mmu mm) :
    Erases OverWith (mmu.sbrk pt slot increment) (mm.sbrk pt slot increment) := by
  cases covers
  unfold sbrk Mm.sbrk
  dsimp only
  split
  · exact .ok ⟨rfl, rfl⟩
  · split
    · apply Erases.bind (sbrkGrow_erases pt slot _ rfl)
      rintro ⟨grown, allocated⟩ ⟨plain, plainAllocated⟩ ⟨same, sameAllocated⟩
      cases same
      cases sameAllocated
      cases allocated with
      | false => exact .ok ⟨rfl, rfl⟩
      | true => exact .ok ⟨rfl, rfl⟩
    · split
      · apply Erases.bind (sbrkShrink_erases pt slot _ rfl)
        intro shrunk plain same
        cases same
        exact .ok ⟨rfl, rfl⟩
      · exact .ok ⟨rfl, rfl⟩

end Erasure

end Mmu

end Zeos
