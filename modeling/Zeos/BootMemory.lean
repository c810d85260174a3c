import Zeos.Directories
import Zeos.FramePool

/-! # Memory after start-up

Start-up allocates frame after frame, so the frames of the first process can be told:
eight for its code and twenty for its data, from the first on.
-/

namespace Zeos

open Foundation

def takenMark (taken frame : Nat) : FrameMark :=
  if frame < numPagKernel ∨ frame % 2 = 0 ∧ frame < numPagKernel + 2 * taken then .usedFrame
  else .freeFrame

theorem takenMark_zero : takenMark 0 = initialMark := by
  funext frame
  unfold takenMark initialMark
  by_cases low : frame < numPagKernel
  · rw [if_pos (.inl low), if_pos low]
  · rw [if_neg (by omega), if_neg low]

theorem takenMark_eq_free {taken frame : Nat} :
    takenMark taken frame = .freeFrame ↔
      numPagKernel ≤ frame ∧ (frame % 2 = 0 → numPagKernel + 2 * taken ≤ frame) := by
  unfold takenMark
  split
  · rename_i used
    constructor
    · intro free
      cases free
    · intro free
      omega
  · rename_i free
    constructor
    · intro _
      omega
    · intro _
      rfl

namespace Mm

variable {mm : Mm} {taken : Nat}

theorem available_taken (marks : mm.physMem = takenMark taken) {frame : Nat} :
    frame ∈ mm.available ↔
      frame < totalPages ∧ frame % 2 = 0 ∧ numPagKernel + 2 * taken ≤ frame := by
  have sizes := memoryMap
  rw [mem_available, marks, takenMark_eq_free]
  constructor
  · rintro ⟨below, above, even, free⟩
    exact ⟨below, even, free.2 even⟩
  · rintro ⟨below, even, above⟩
    exact ⟨below, by omega, even, by omega, fun _ => above⟩

theorem card_available_taken (marks : mm.physMem = takenMark taken) (some : taken ≤ 384) :
    mm.available.card = 384 - taken := by
  have sizes := memoryMap
  have row : mm.available =
      (Finset.range (384 - taken)).image fun index => numPagKernel + 2 * (taken + index) := by
    ext frame
    rw [available_taken marks, Finset.mem_image]
    constructor
    · rintro ⟨below, even, above⟩
      exact ⟨(frame - numPagKernel) / 2 - taken, Finset.mem_range.mpr (by omega), by omega⟩
    · rintro ⟨index, member, same⟩
      have small := Finset.mem_range.mp member
      omega
  rw [row, Finset.card_image_of_injective, Finset.card_range]
  intro first second same
  dsimp only at same
  omega

theorem allocFrame_taken (marks : mm.physMem = takenMark taken) (more : taken < 384) :
    mm.allocFrame =
      ({ mm with physMem := takenMark (taken + 1) }, some (numPagKernel + 2 * taken)) := by
  have sizes := memoryMap
  have least : Least mm.available (some (numPagKernel + 2 * taken)) := by
    apply And.intro ((available_taken marks).mpr ⟨by omega, by omega, Nat.le_refl _⟩)
    intro other member
    exact ((available_taken marks).mp member).2.2
  cases allocation : mm.allocFrame with
  | mk after result =>
      have same := (allocFrame_least allocation).unique least
      subst same
      rw [(allocFrame_some allocation).2, marks]
      congr 2
      funext frame
      by_cases here : frame = numPagKernel + 2 * taken
      · subst here
        rw [Function.update_self, takenMark, if_pos (.inr ⟨by omega, by omega⟩)]
      · rw [Function.update_of_ne here]
        unfold takenMark
        refine if_congr ?_ rfl rfl
        omega

def bootEntry (rw : Bool) (frame : Nat) : PageTableEntry := ⟨true, rw, true, BitVec.ofNat 20 frame⟩

theorem mapFreshPages_eq (rw : Bool) (pt : DirSlot) {count page : Nat}
    (marks : mm.physMem = takenMark taken) (enough : taken + count ≤ 384) :
    mapFreshPages rw pt count page mm =
      { mm with
        physMem := takenMark (taken + count)
        pagusrTable := Function.update mm.pagusrTable pt fun number =>
          if page ≤ number ∧ number < page + count then
            bootEntry rw (numPagKernel + 2 * (taken + (number - page)))
          else mm.pagusrTable pt number } := by
  induction count generalizing mm taken page with
  | zero =>
      rcases mm with ⟨physMem, pagusrTable, dirCounter, programbreakTable, ram⟩
      have same : physMem = takenMark taken := marks
      subst same
      simp only [mapFreshPages, Nat.add_zero, Mm.mk.injEq, true_and, and_true]
      funext other number
      by_cases samePt : other = pt
      · subst samePt
        rw [Function.update_self, if_neg (by omega)]
      · rw [Function.update_of_ne samePt]
  | succ count induction =>
      rw [mapFreshPages, allocFrame_taken marks (by omega)]
      let entered := setEntry { mm with physMem := takenMark (taken + 1) } pt page
        (bootEntry rw (numPagKernel + 2 * taken))
      have rest := @induction entered (taken + 1) (page + 1) rfl (by omega)
      refine Eq.trans rest ?_
      rw [Mm.mk.injEq]
      refine ⟨by congr 1; omega, ?_, rfl, rfl, rfl⟩
      funext other number
      by_cases samePt : other = pt
      · subst samePt
        rw [Function.update_self, Function.update_self]
        by_cases here : number = page
        · subst here
          rw [if_neg (by omega), if_pos (by omega), Nat.sub_self]
          exact setEntry_here _ _ _ _
        · by_cases later : page + 1 ≤ number ∧ number < page + 1 + count
          · rw [if_pos later, if_pos (by omega)]
            congr 2
            omega
          · rw [if_neg later, if_neg (by omega)]
            exact setEntry_otherPage _ _ _ here
      · rw [Function.update_of_ne samePt, Function.update_of_ne samePt]
        exact congrFun (setEntry_otherTable _ _ _ samePt) number

end Mm

section BootCore

variable (machine : Machine)

def Machine.firstTable (page : Nat) : PageTableEntry :=
  if pagLogInitData ≤ page ∧ page < pagLogInitData + numPagData then
    Mm.bootEntry true (numPagKernel + 2 * (numPagCode + (page - pagLogInitData)))
  else if pagLogInitCode ≤ page ∧ page < pagLogInitCode + numPagCode then
    Mm.bootEntry false (numPagKernel + 2 * (page - pagLogInitCode))
  else machine.initialEntry page

theorem bootCore_memory :
    (machine.bootCore 0 1).mm =
      { physMem := takenMark (numPagCode + numPagData)
        pagusrTable := Function.update (fun _ => machine.initialEntry) 2 machine.firstTable
        dirCounter := fun slot => if slot.val ≤ 2 then 1 else 0
        programbreakTable := Function.update (fun _ => 0) 2 heapStart
        ram := machine.ram } := by
  have sizes := memoryMap
  let counted : Mm :=
    { machine.initialMm with dirCounter := fun slot => if slot.val ≤ 2 then 1 else 0 }
  have marks : counted.physMem = takenMark 0 := takenMark_zero.symm
  have code := @Mm.mapFreshPages_eq counted 0 false 2 numPagCode pagLogInitCode marks (by omega)
  rw [Nat.zero_add] at code
  have data := @Mm.mapFreshPages_eq (Mm.mapFreshPages false 2 numPagCode pagLogInitCode counted)
    numPagCode true 2 numPagData pagLogInitData (by rw [code]) (by omega)
  have user : counted.setUserPages 2 = _ := data
  rw [bootCore_mm]
  change Mm.setBreak (counted.setUserPages 2) 2 heapStart = _
  rw [user, code]
  simp only [Mm.setBreak, Mm.mk.injEq, true_and]
  refine ⟨?_, rfl, rfl, rfl⟩
  funext pt page
  by_cases first : pt = 2
  · subst first
    rw [Function.update_self, Function.update_self]
    unfold Machine.firstTable
    refine if_congr .rfl rfl ?_
    rw [Nat.zero_add]
    rfl
  · rw [Function.update_of_ne first, Function.update_of_ne first, Function.update_of_ne first]
    rfl

theorem boot_physMem : (machine.bootCore 0 1).mm.physMem = takenMark (numPagCode + numPagData) := by
  rw [bootCore_memory]

theorem boot_table (pt : DirSlot) (page : Nat) :
    (machine.bootCore 0 1).mm.pagusrTable pt page =
      if pt = 2 then machine.firstTable page else machine.initialEntry page := by
  rw [bootCore_memory]
  change Function.update (fun _ => machine.initialEntry) 2 machine.firstTable pt page = _
  by_cases first : pt = 2
  · rw [if_pos first, first, Function.update_self]
  · rw [if_neg first, Function.update_of_ne first]

theorem boot_programbreak (slot : DirSlot) :
    (machine.bootCore 0 1).mm.programbreakTable slot = if slot = 2 then heapStart else 0 := by
  rw [bootCore_memory]
  change Function.update (fun _ => 0) 2 heapStart slot = _
  by_cases first : slot = 2
  · rw [if_pos first, first, Function.update_self]
  · rw [if_neg first, Function.update_of_ne first]

theorem boot_unmapped (pt : DirSlot) {page : Nat} (above : pagLogInitHeap ≤ page) :
    (machine.bootCore 0 1).mm.pagusrTable pt page = .zero := by
  have sizes := memoryMap
  have beyond : machine.initialEntry page = .zero := by
    rw [Machine.initialEntry, if_pos (.inr (by omega))]
  have first : machine.firstTable page = .zero := by
    rw [Machine.firstTable, if_neg (by omega), if_neg (by omega), beyond]
  rw [boot_table, first, beyond, ite_self]

end BootCore

end Zeos
