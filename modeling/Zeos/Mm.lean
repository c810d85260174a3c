import Zeos.Foundation.ByteCopy
import Zeos.Types

/-! # Memory management

Frames, page tables and directories (`mm.c`, `allocate_DIR`, `copy_data`), and
the memory part of `sys_fork`, `sys_exit` and `sys_sbrk`. A page table is passed
by the slot of its directory, which is what `get_PT` computes from a task.
-/

namespace Zeos

open Foundation

namespace Mm

/-! ## Frames -/

/-- The search of `alloc_frame`: look at frame `frame`, then two further on. -/
def allocScan (physMem : Nat → FrameMark) : Nat → Nat → Option Nat
  | 0, _ => none
  | fuel + 1, frame =>
      if frame < totalPages then
        if physMem frame = .freeFrame then some frame
        else allocScan physMem fuel (frame + 2)
      else none

/-- `none` stands for the result -1. Every step of the search advances the
frame number, so `TOTAL_PAGES` steps reach its end. -/
def allocFrame (mm : Mm) : Mm × Option Nat :=
  match allocScan mm.physMem totalPages numPagKernel with
  | some frame => ({ mm with physMem := Function.update mm.physMem frame .usedFrame }, some frame)
  | none => (mm, none)

def freeFrame (mm : Mm) (frame : Nat) : Mm :=
  if numPagKernel < frame ∧ frame < totalPages then
    { mm with physMem := Function.update mm.physMem frame .freeFrame }
  else mm

/-! ## Page tables -/

def setEntry (mm : Mm) (pt : DirSlot) (page : Nat) (entry : PageTableEntry) : Mm :=
  { mm with
    pagusrTable := Function.update mm.pagusrTable pt
      (Function.update (mm.pagusrTable pt) page entry) }

/-- The entry `set_ss_pag` writes: the frame number is cut to the 20 bits of
its field. -/
def userEntry (frame : Nat) : PageTableEntry := ⟨true, true, true, BitVec.ofNat 20 frame⟩

def setSsPag (mm : Mm) (pt : DirSlot) (page frame : Nat) : Except Fault Mm :=
  if page < totalPages then .ok (mm.setEntry pt page (userEntry frame))
  else .error (.tableBounds page)

def delSsPag (mm : Mm) (pt : DirSlot) (page : Nat) : Except Fault Mm :=
  if page < totalPages then .ok (mm.setEntry pt page .zero)
  else .error (.tableBounds page)

def getFrame (mm : Mm) (pt : DirSlot) (page : Nat) : Except Fault Nat :=
  if page < totalPages then .ok (mm.pagusrTable pt page).pbaseAddr.toNat
  else .error (.tableBounds page)

/-! ## Memory accesses of the kernel -/

/-- The frame and offset behind a logical address. Only the first directory
entry is present, so higher addresses fault like absent pages. The kernel runs
with write protection off, so presence is all that is needed. -/
def translate (mm : Mm) (pt : DirSlot) (address : Nat) : Except Fault (Nat × Nat) :=
  if address / pageSize < totalPages ∧ (mm.pagusrTable pt (address / pageSize)).present then
    .ok ((mm.pagusrTable pt (address / pageSize)).pbaseAddr.toNat, address % pageSize)
  else .error (.pageFault address)

def loadByte (pt : DirSlot) (mm : Mm) (address : Nat) : Except Fault UInt8 := do
  let place ← mm.translate pt address
  return mm.ram place.1 place.2

def storeByte (pt : DirSlot) (mm : Mm) (address : Nat) (byte : UInt8) : Except Fault Mm := do
  let place ← mm.translate pt address
  if address / pageSize < numPagKernel then .error (.kernelPage (address / pageSize))
  else return { mm with
    ram := Function.update mm.ram place.1 (Function.update (mm.ram place.1) place.2 byte) }

def storeBytes (pt : DirSlot) : Nat → List UInt8 → Mm → Except Fault Mm
  | _, [], mm => .ok mm
  | address, byte :: bytes, mm => do
      let mm ← storeByte pt mm address byte
      storeBytes pt (toUnsigned (address + 1)) bytes mm

/-- Loads from consecutive addresses. -/
def loadBytes (pt : DirSlot) (mm : Mm) : Nat → Nat → Except Fault (List UInt8)
  | 0, _ => .ok []
  | count + 1, address => do
      let byte ← loadByte pt mm address
      let bytes ← loadBytes pt mm count (toUnsigned (address + 1))
      return byte :: bytes

def through (pt : DirSlot) : ByteMemory Mm Fault := ⟨loadByte pt, storeByte pt⟩

/-- `copy_data` runs in the address space of the current task. -/
def copyData (mm : Mm) (pt : DirSlot) (start dest : Nat) (size : Int) : Except Fault Mm :=
  (through pt).copy start dest size.toNat mm

/-! ## Directories -/

/-- The slot `allocate_DIR` finds, if there is one. -/
def freeSlot (mm : Mm) : Option DirSlot :=
  (List.finRange nrTasks).find? fun slot => mm.dirCounter slot = 0

/-- Take a directory. When none is free the source returns success all the
same and leaves the task with whatever directory it had. -/
def allocateDir (mm : Mm) : Mm × Option DirSlot :=
  match mm.freeSlot with
  | some slot => ({ mm with dirCounter := Function.update mm.dirCounter slot 1 }, some slot)
  | none => (mm, none)

def retainDir (mm : Mm) (slot : DirSlot) : Mm :=
  { mm with dirCounter := Function.update mm.dirCounter slot (mm.dirCounter slot + 1) }

/-! ## Groups of frames

`sys_fork` and `sys_sbrk` allocate a whole vector of frames first and give back
what they got when one of the allocations fails. -/

def freeFrames (mm : Mm) (frames : List Nat) : Mm := frames.foldl freeFrame mm

def allocFrames : Nat → Mm → List Nat → Mm × Option (List Nat)
  | 0, mm, allocated => (mm, some allocated)
  | count + 1, mm, allocated =>
      match mm.allocFrame with
      | (mm, some frame) => allocFrames count mm (allocated ++ [frame])
      | (mm, none) => (mm.freeFrames allocated, none)

/-! ## `sys_fork` -/

/-- Map a page of the child like the same page of the father. -/
def copyEntry (child father : DirSlot) (page : Nat) (mm : Mm) : Except Fault Mm := do
  let frame ← mm.getFrame father page
  mm.setSsPag child page frame

/-- `programbreak_page`, in unsigned arithmetic. -/
def programbreakPage (mm : Mm) (slot : DirSlot) : Nat :=
  toUnsigned (mm.programbreakTable slot - 1) / pageSize

def pagHeap (mm : Mm) (slot : DirSlot) : Int :=
  mm.programbreakPage slot - pagLogInitHeap + 1

/-- The child's code, kernel and heap pages, mapped like the father's. `slot`
is the father's entry in the table of program breaks. -/
def forkShare (child father slot : DirSlot) (mm : Mm) : Except Fault Mm := do
  let mm ← countedLoop (copyEntry child father) pagLogInitCode numPagCode mm
  let mm ← countedLoop (copyEntry child father) 0 numPagKernel mm
  countedLoop (copyEntry child father) pagLogInitHeap
    (mm.programbreakPage slot + 1 - pagLogInitHeap) mm

/-- One page of the copy: map the new frame in the child and in the father's
temporary window, copy the page through the window, and close the window. -/
def forkCopyPage (child father : DirSlot) (heapPages : Int) (frames : List Nat) (i : Nat)
    (mm : Mm) : Except Fault Mm := do
  let pagenumber := frames.getD i 0
  let window := toUnsigned (pagLogInitData + numPagData + heapPages + i)
  let mm ← mm.setSsPag child (pagLogInitData + i) pagenumber
  let mm ← mm.setSsPag father window pagenumber
  let mm ← mm.copyData father ((pagLogInitData + i) * pageSize) (window * pageSize) pageSize
  mm.delSsPag father window

/-- Steps 4 to 6 of `sys_fork`; `false` when a frame could not be allocated. -/
def forkPages (child father slot : DirSlot) (mm : Mm) : Except Fault (Mm × Bool) := do
  let mm ← forkShare child father slot mm
  let heapPages := mm.pagHeap slot
  let count := (numPagData + heapPages).toNat
  match allocFrames count mm [] with
  | (mm, none) => return (mm, false)
  | (mm, some frames) => do
      let mm ← countedLoop (forkCopyPage child father heapPages frames) 0 count mm
      return (mm, true)

/-! ## `sys_exit` -/

def releasePage (pt : DirSlot) (page : Nat) (mm : Mm) : Except Fault Mm := do
  let frame ← mm.getFrame pt page
  (mm.freeFrame frame).delSsPag pt page

/-- `pt` is the page table of the task and `slot` the one whose break bounds
the heap loop. -/
def freeUserPages (mm : Mm) (pt slot : DirSlot) : Except Fault Mm := do
  let mm ← countedLoop (releasePage pt) pagLogInitData numPagData mm
  countedLoop (releasePage pt) pagLogInitHeap
    (toSigned (mm.programbreakTable slot) / pageSize + 1 - pagLogInitHeap).toNat mm

/-- Drop a reference to the page directory, and the user pages with the last
reference. -/
def releaseDir (mm : Mm) (pt slot : DirSlot) : Except Fault Mm :=
  let mm := { mm with dirCounter := Function.update mm.dirCounter pt (mm.dirCounter pt - 1) }
  if mm.dirCounter pt = 0 then mm.freeUserPages pt slot else .ok mm

/-! ## `sys_sbrk` -/

/-- The new end of the heap, as an `unsigned int`. -/
def endaddress (mm : Mm) (slot : DirSlot) (increment : Int) : Nat :=
  toUnsigned (mm.programbreakTable slot + increment)

def setBreak (mm : Mm) (slot : DirSlot) (address : Nat) : Mm :=
  { mm with programbreakTable := Function.update mm.programbreakTable slot address }

/-- Number of pages to add and first table entry to fill. -/
def sbrkGrowth (programbreak endaddress : Nat) : Nat × Nat :=
  let iniPage := programbreak / pageSize
  let newPage := endaddress / pageSize
  let npages := toUnsigned ((newPage : Int) - iniPage +
    (if programbreak % pageSize = 0 then 1 else 0) - (if endaddress % pageSize = 0 then 1 else 0))
  (npages, if programbreak % pageSize = 0 then iniPage else iniPage + 1)

/-- The words that a kernel stack leaves to the array of `sys_sbrk`. Of its 1024 the
`task_struct` has 16, the saved context and the return address 17, the frame of
`sys_sbrk` and of what it calls 28. The array of `sys_fork`, which gets that far with
heaps of at most 741 pages, always fits. -/
def arrayRoom : Nat := 1024 - 16 - 17 - 28

/-- A break that was never set is 0, so that growing begins with the pages of the
kernel. -/
def sbrkGrow (pt slot : DirSlot) (endaddress : Nat) (mm : Mm) : Except Fault (Mm × Bool) :=
  let (npages, tpentry) := sbrkGrowth (mm.programbreakTable slot) endaddress
  if arrayRoom < npages then .error (.stackOverflow npages)
  else match allocFrames npages mm [] with
  | (mm, none) => return (mm, false)
  | (mm, some frames) =>
      if tpentry < numPagKernel then .error (.kernelPage tpentry)
      else do
        let mm ←
          countedLoop (fun i mm => mm.setSsPag pt (tpentry + i) (frames.getD i 0)) 0 npages mm
        return (mm, true)

/-- The shrinking branch. The removed pages are `iniPage`, `iniPage - 1`, ... in
unsigned arithmetic, and the page of the new end too when that is aligned. -/
def sbrkShrink (pt slot : DirSlot) (endaddress : Nat) (mm : Mm) : Except Fault Mm := do
  let iniPage := mm.programbreakTable slot / pageSize
  let newPage := max (endaddress / pageSize) pagLogInitHeap
  let npages := toUnsigned ((iniPage : Int) - newPage)
  let mm ← countedLoop (fun i => releasePage pt (toUnsigned ((iniPage : Int) - i))) 0 npages mm
  if endaddress % pageSize = 0 then releasePage pt newPage mm else return mm

/-- `none` is the result -ENOMEM. The limit test compares signed page numbers. -/
def sbrk (pt slot : DirSlot) (increment : Int) (mm : Mm) : Except Fault (Mm × Option Nat) := do
  let endaddress := mm.endaddress slot increment
  let last := mm.programbreakTable slot
  let endPage := toSigned endaddress / pageSize
  if 0 ≤ increment ∧ (endPage < pagLogInitHeap ∨ totalPages < endPage) then
    return (mm, none)
  else if 0 < increment then
    match ← mm.sbrkGrow pt slot endaddress with
    | (mm, false) => return (mm, none)
    | (mm, true) => return (mm.setBreak slot endaddress, some last)
  else if increment < 0 then
    let mm ← mm.sbrkShrink pt slot endaddress
    let belowheap := endaddress / pageSize < pagLogInitHeap
    return (mm.setBreak slot (if belowheap then heapStart else endaddress), some last)
  else
    return (mm.setBreak slot endaddress, some last)

theorem sbrkGrow_inv {pt slot : DirSlot} {endaddress npages tpentry : Nat} {mm after : Mm}
    {enough : Bool}
    (growth : sbrkGrowth (mm.programbreakTable slot) endaddress = (npages, tpentry))
    (grown : sbrkGrow pt slot endaddress mm = .ok (after, enough)) :
    (enough = false ∧ allocFrames npages mm [] = (after, none)) ∨
      (enough = true ∧ numPagKernel ≤ tpentry ∧
        ∃ middle frames, allocFrames npages mm [] = (middle, some frames) ∧
          countedLoop (fun i mm => mm.setSsPag pt (tpentry + i) (frames.getD i 0)) 0 npages
            middle = .ok after) := by
  unfold sbrkGrow at grown
  rw [growth] at grown
  dsimp only at grown
  split at grown
  · cases grown
  · cases allocation : allocFrames npages mm [] with
    | mk middle result =>
        rw [allocation] at grown
        cases result with
        | none =>
            cases grown
            exact .inl ⟨rfl, rfl⟩
        | some frames =>
            dsimp only at grown
            split at grown
            · cases grown
            · rename_i above
              rcases bind_eq_ok.mp grown with ⟨mapped, mapping, result⟩
              cases result
              exact .inr ⟨rfl, Nat.not_lt.mp above, middle, frames, rfl, mapping⟩

/-! ## Failures

Memory management fails by running over a table or a stack, by touching an absent
page or by changing a page of the kernel, and in no other way. -/

section Failures

def OfMemory : Fault → Prop
  | .tableBounds _ | .pageFault _ | .stackOverflow _ | .kernelPage _ => True
  | _ => False

theorem setSsPag_failsOnly (mm : Mm) (pt : DirSlot) (page frame : Nat) :
    FailsOnly OfMemory (mm.setSsPag pt page frame) := by
  unfold setSsPag
  split
  · exact .ok trivial
  · exact .error trivial

theorem delSsPag_failsOnly (mm : Mm) (pt : DirSlot) (page : Nat) :
    FailsOnly OfMemory (mm.delSsPag pt page) := by
  unfold delSsPag
  split
  · exact .ok trivial
  · exact .error trivial

theorem getFrame_failsOnly (mm : Mm) (pt : DirSlot) (page : Nat) :
    FailsOnly OfMemory (mm.getFrame pt page) := by
  unfold getFrame
  split
  · exact .ok trivial
  · exact .error trivial

theorem translate_failsOnly (mm : Mm) (pt : DirSlot) (address : Nat) :
    FailsOnly OfMemory (mm.translate pt address) := by
  unfold translate
  split
  · exact .ok trivial
  · exact .error trivial

theorem storeByte_failsOnly (pt : DirSlot) (mm : Mm) (address : Nat) (byte : UInt8) :
    FailsOnly OfMemory (storeByte pt mm address byte) := by
  refine (translate_failsOnly mm pt address).bind fun place => ?_
  split
  · exact .error trivial
  · exact .ok trivial

theorem storeByte_inv {pt : DirSlot} {mm stored : Mm} {address : Nat} {byte : UInt8}
    (stores : mm.storeByte pt address byte = .ok stored) :
    ∃ place, mm.translate pt address = .ok place ∧ numPagKernel ≤ address / pageSize ∧
      stored = { mm with
        ram := Function.update mm.ram place.1
          (Function.update (mm.ram place.1) place.2 byte) } := by
  rcases bind_eq_ok.mp stores with ⟨place, translated, rest⟩
  split at rest
  · cases rest
  · rename_i above
    cases rest
    exact ⟨place, translated, Nat.not_lt.mp above, rfl⟩

theorem loadByte_failsOnly (pt : DirSlot) (mm : Mm) (address : Nat) :
    FailsOnly OfMemory (loadByte pt mm address) :=
  (translate_failsOnly mm pt address).bind fun _ => .ok trivial

theorem storeBytes_failsOnly (pt : DirSlot) (address : Nat) (bytes : List UInt8) (mm : Mm) :
    FailsOnly OfMemory (storeBytes pt address bytes mm) := by
  induction bytes generalizing address mm with
  | nil => exact .ok trivial
  | cons byte bytes induction =>
      exact (storeByte_failsOnly pt mm address byte).bind fun mm => induction _ mm

theorem loadBytes_failsOnly (pt : DirSlot) (mm : Mm) (count address : Nat) :
    FailsOnly OfMemory (loadBytes pt mm count address) := by
  induction count generalizing address with
  | zero => exact .ok trivial
  | succ count induction =>
      exact (loadByte_failsOnly pt mm address).bind fun _ => (induction _).bind fun _ => .ok trivial

/-! ## Loading a block -/

theorem toUnsigned_next (address : Int) :
    toUnsigned (toUnsigned address + 1) = toUnsigned (address + 1) := by
  unfold toUnsigned
  omega

theorem add_next (address : Int) (k : Nat) :
    address + 1 + (k : Int) = address + (k + 1 : Nat) := by
  omega

theorem loadBytes_loads {pt : DirSlot} {mm : Mm} {count : Nat} {address : Int}
    {bytes : List UInt8} (loaded : mm.loadBytes pt count (toUnsigned address) = .ok bytes) :
    ∀ k < count, ∃ byte, mm.loadByte pt (toUnsigned (address + k)) = .ok byte := by
  induction count generalizing address bytes with
  | zero =>
      intro k below
      omega
  | succ count induction =>
      rcases bind_eq_ok.mp loaded with ⟨byte, first, later⟩
      rcases bind_eq_ok.mp later with ⟨rest, tail, -⟩
      rw [toUnsigned_next] at tail
      intro k below
      cases k with
      | zero => exact ⟨byte, by rwa [show address + (0 : Nat) = address from Int.add_zero address]⟩
      | succ k =>
          rw [← add_next]
          exact induction tail k (by omega)

theorem loadBytes_eq_ok {pt : DirSlot} {mm : Mm} {count : Nat} {address : Int}
    {value : Nat → UInt8}
    (readable : ∀ k < count, mm.loadByte pt (toUnsigned (address + k)) = .ok (value k)) :
    mm.loadBytes pt count (toUnsigned address) = .ok ((List.range count).map value) := by
  induction count generalizing address value with
  | zero => rfl
  | succ count induction =>
      have first := readable 0 (by omega)
      rw [show address + (0 : Nat) = address from Int.add_zero address] at first
      have rest := @induction (address + 1) (fun k => value (k + 1)) fun k below => by
        have later := readable (k + 1) (by omega)
        rwa [← add_next] at later
      rw [loadBytes, first, ok_bind, toUnsigned_next, rest, List.range_succ_eq_map]
      simp only [ok_bind, pure_eq_ok, List.map_cons, List.map_map]
      rfl

/-! ## How the operations on directories fail -/

theorem releasePage_failsOnly (pt : DirSlot) (page : Nat) (mm : Mm) :
    FailsOnly OfMemory (releasePage pt page mm) :=
  (getFrame_failsOnly mm pt page).bind fun _ => delSsPag_failsOnly _ pt page

theorem releaseDir_failsOnly (mm : Mm) (pt slot : DirSlot) :
    FailsOnly OfMemory (mm.releaseDir pt slot) := by
  unfold releaseDir
  dsimp only
  split
  · exact (FailsOnly.countedLoop (releasePage_failsOnly pt) _ _ _).bind fun _ =>
      FailsOnly.countedLoop (releasePage_failsOnly pt) _ _ _
  · exact .ok trivial

theorem copyEntry_failsOnly (child father : DirSlot) (page : Nat) (mm : Mm) :
    FailsOnly OfMemory (copyEntry child father page mm) :=
  (getFrame_failsOnly mm father page).bind fun _ => setSsPag_failsOnly mm child page _

theorem forkCopyPage_failsOnly (child father : DirSlot) (heapPages : Int) (frames : List Nat)
    (i : Nat) (mm : Mm) : FailsOnly OfMemory (forkCopyPage child father heapPages frames i mm) :=
  (setSsPag_failsOnly _ _ _ _).bind fun _ => (setSsPag_failsOnly _ _ _ _).bind fun _ =>
    (ByteMemory.copy_failsOnly (loadByte_failsOnly father) (storeByte_failsOnly father)
      _ _ _ _).bind fun _ => delSsPag_failsOnly _ _ _

theorem forkShare_failsOnly (child father slot : DirSlot) (mm : Mm) :
    FailsOnly OfMemory (forkShare child father slot mm) := by
  unfold forkShare
  refine FailsOnly.bind (FailsOnly.countedLoop (copyEntry_failsOnly child father) _ _ _)
    fun mm => ?_
  refine FailsOnly.bind (FailsOnly.countedLoop (copyEntry_failsOnly child father) _ _ _)
    fun mm => ?_
  exact FailsOnly.countedLoop (copyEntry_failsOnly child father) _ _ _

theorem forkPages_failsOnly (child father slot : DirSlot) (mm : Mm) :
    FailsOnly OfMemory (forkPages child father slot mm) := by
  unfold forkPages
  refine (forkShare_failsOnly child father slot mm).bind fun mm => ?_
  dsimp only
  split
  · exact .ok trivial
  · refine FailsOnly.bind (FailsOnly.countedLoop ?_ _ _ _) fun _ => .ok trivial
    exact forkCopyPage_failsOnly child father _ _

theorem sbrk_failsOnly (pt slot : DirSlot) (increment : Int) (mm : Mm) :
    FailsOnly OfMemory (sbrk pt slot increment mm) := by
  unfold sbrk
  dsimp only
  split
  · exact .ok trivial
  · split
    · have grows : FailsOnly OfMemory (mm.sbrkGrow pt slot (mm.endaddress slot increment)) := by
        unfold sbrkGrow
        split
        split
        · exact .error trivial
        · split
          · exact .ok trivial
          · split
            · exact .error trivial
            · exact (FailsOnly.countedLoop (fun i mm => setSsPag_failsOnly mm pt _ _) _ _ _).bind
                fun _ => .ok trivial
      refine grows.bind fun outcome => ?_
      split <;> exact .ok trivial
    · split
      · have shrinks : FailsOnly OfMemory
            (sbrkShrink pt slot (mm.endaddress slot increment) mm) := by
          unfold sbrkShrink
          refine (FailsOnly.countedLoop (fun i mm => releasePage_failsOnly pt _ mm) _ _ _).bind
            fun _ => ?_
          split
          · exact releasePage_failsOnly pt _ _
          · exact .ok trivial
        exact shrinks.bind fun _ => .ok trivial
      · exact .ok trivial

end Failures

end Mm

end Zeos
