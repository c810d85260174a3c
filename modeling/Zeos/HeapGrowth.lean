import Zeos.Heap

/-! # Growing the heap

A call of `sys_sbrk` with an increment that is not negative, by its effect on the
state of memory management: all pages that it needs, or nothing.
-/

namespace Zeos

open Foundation

namespace Mm

variable {mm after : Mm} {pt slot : DirSlot}

def extended (pt slot : DirSlot) (amount : Nat) (mm : Mm) : Option Mm :=
  let last := mm.programbreakTable slot
  match allocFrames (pagesBelow (last + amount) - pagesBelow last) mm [] with
  | (after, some frames) =>
      some ((after.mapPages pt (pagesBelow last) frames).setBreak slot (last + amount))
  | (_, none) => none

/-- The corrections for aligned ends count the pages that begin between the two
addresses. -/
theorem sbrkGrowth_eq {programbreak endaddress : Nat} (grows : programbreak ≤ endaddress)
    (small : endaddress < 4294967296) :
    sbrkGrowth programbreak endaddress =
      (pagesBelow endaddress - pagesBelow programbreak, pagesBelow programbreak) := by
  have sizes := memoryMap
  simp only [sbrkGrowth, pagesBelow, toUnsigned, sizes, Prod.mk.injEq]
  constructor
  · split <;> split <;> omega
  · split <;> omega

theorem endaddress_eq {increment : Int} (upper : mm.programbreakTable slot ≤ heapLimit)
    (nonneg : 0 ≤ increment) (int : IsInt increment) :
    mm.endaddress slot increment = mm.programbreakTable slot + increment.toNat := by
  have bounds := heapBounds
  have small := int.2
  simp only [endaddress, toUnsigned]
  omega

theorem limitTest_iff {address : Nat} (lower : heapStart ≤ address) (small : address < 4294967296) :
    toSigned address / pageSize < pagLogInitHeap ∨ totalPages < toSigned address / pageSize ↔
      totalPages < address / pageSize := by
  have sizes := memoryMap
  have bounds := heapBounds
  simp only [toSigned, sizes] at *
  split <;> omega

theorem HeapFromPool.fits (heap : HeapFromPool mm pt slot) {count : Nat} {frames : List Nat}
    (found : allocFrames count mm [] = (after, some frames)) :
    pagesBelow (mm.programbreakTable slot) + count ≤ pagLogInitHeap + 384 := by
  have enough := (allocFrames_isSome count mm []).mp (by rw [found]; rfl)
  have counted := heap.card_le
  omega

/-- From a break in the heap up to the end of the table, the array of the new frames fits on the
kernel stack. -/
theorem array_fits {programbreak endaddress : Nat} (lower : heapStart ≤ programbreak)
    (within : endaddress / pageSize ≤ totalPages) :
    pagesBelow endaddress - pagesBelow programbreak ≤ arrayRoom := by
  have sizes := memoryMap
  have bounds := heapBounds
  have room : arrayRoom = 963 := rfl
  simp only [pagesBelow, sizes] at *
  omega

theorem sbrkGrow_eq (heap : HeapFromPool mm pt slot) {amount : Nat}
    (small : mm.programbreakTable slot + amount < 4294967296)
    (within : (mm.programbreakTable slot + amount) / pageSize ≤ totalPages) :
    sbrkGrow pt slot (mm.programbreakTable slot + amount) mm =
      match allocFrames (pagesBelow (mm.programbreakTable slot + amount) -
          pagesBelow (mm.programbreakTable slot)) mm [] with
      | (after, some frames) =>
          .ok (after.mapPages pt (pagesBelow (mm.programbreakTable slot)) frames, true)
      | (_, none) => .ok (mm, false) := by
  rw [sbrkGrow, sbrkGrowth_eq (by omega) small]
  dsimp only
  rw [if_neg (Nat.not_lt.mpr (array_fits heap.lower within))]
  generalize allocation : allocFrames (pagesBelow (mm.programbreakTable slot + amount) -
    pagesBelow (mm.programbreakTable slot)) mm [] = outcome
  rcases outcome with ⟨after, result⟩
  cases result with
  | none =>
      rw [← mark_nil mm .usedFrame] at allocation
      rw [allocFrames_none allocation (by simp) heap.first]
      rfl
  | some frames =>
      have sizes := memoryMap
      have fits := heap.fits allocation
      rcases allocFrames_some allocation with ⟨fresh, appended, length, -, -, -⟩
      rw [List.nil_append] at appended
      subst appended
      have loop := mapLoop_eq after pt (pagesBelow (mm.programbreakTable slot)) frames (by omega)
      rw [length] at loop
      have above : ¬pagesBelow (mm.programbreakTable slot) < numPagKernel := by
        have bounds := heapBounds
        have lower := heap.lower
        simp only [pagesBelow, sizes]
        omega
      dsimp only
      rw [if_neg above, loop]
      rfl

theorem sbrk_eq_extended (heap : HeapFromPool mm pt slot) {increment : Int}
    (nonneg : 0 ≤ increment) (int : IsInt increment) :
    mm.sbrk pt slot increment = .ok
      (if totalPages < (mm.programbreakTable slot + increment.toNat) / pageSize then (mm, none)
      else
        match mm.extended pt slot increment.toNat with
        | some after => (after, some (mm.programbreakTable slot))
        | none => (mm, none)) := by
  have bounds := heapBounds
  have lower := heap.lower
  have upper := heap.upper
  have bounded := int.2
  have small : mm.programbreakTable slot + increment.toNat < 4294967296 := by omega
  rw [sbrk, endaddress_eq heap.upper nonneg int]
  dsimp only
  simp only [nonneg, true_and, limitTest_iff (Nat.le_trans lower (Nat.le_add_right _ _)) small]
  by_cases beyond : totalPages < (mm.programbreakTable slot + increment.toNat) / pageSize
  · rw [if_pos beyond, if_pos beyond]
    rfl
  · rw [if_neg beyond, if_neg beyond]
    by_cases positive : 0 < increment
    · rw [if_pos positive, sbrkGrow_eq heap small (Nat.not_lt.mp beyond),
        extended]
      generalize allocFrames (pagesBelow (mm.programbreakTable slot + increment.toNat) -
        pagesBelow (mm.programbreakTable slot)) mm [] = outcome
      rcases outcome with ⟨after, result⟩
      cases result <;> rfl
    · have zero : increment.toNat = 0 := by omega
      rw [if_neg positive, if_neg (by omega), extended, zero]
      simp [allocFrames, mapPages_nil]

/-! ## What growing does -/

def Added (before : Mm) (slot : DirSlot) (amount page : Nat) : Prop :=
  before.programbreakTable slot ≤ page * pageSize ∧
    page * pageSize < before.programbreakTable slot + amount

/-- Exactly the added pages are mapped, on free frames of their own, and the break
is moved; nothing else changes. -/
structure Grows (before after : Mm) (pt slot : DirSlot) (amount : Nat) (frame : Nat → Nat) :
    Prop where
  inside : ∀ page, before.Added slot amount page → page < totalPages
  wasFree : ∀ page, before.Added slot amount page → frame page ∈ before.available
  distinct : ∀ page other, before.Added slot amount page → before.Added slot amount other →
    frame page = frame other → page = other
  mapped : ∀ page, before.Added slot amount page →
    after.pagusrTable pt page = userEntry (frame page)
  kept : ∀ page, ¬before.Added slot amount page →
    after.pagusrTable pt page = before.pagusrTable pt page
  taken : ∀ page, before.Added slot amount page → after.physMem (frame page) = .usedFrame
  marks : ∀ other, (∀ page, before.Added slot amount page → frame page ≠ other) →
    after.physMem other = before.physMem other
  rest : after = { before with
    physMem := after.physMem
    pagusrTable := Function.update before.pagusrTable pt (after.pagusrTable pt)
    programbreakTable := Function.update before.programbreakTable slot
      (before.programbreakTable slot + amount) }

theorem added_iff {amount page : Nat} :
    mm.Added slot amount page ↔ pagesBelow (mm.programbreakTable slot) ≤ page ∧
      page < pagesBelow (mm.programbreakTable slot + amount) := by
  rw [Added, lt_pagesBelow, ← Nat.not_lt, ← Nat.not_lt, lt_pagesBelow]

theorem extended_grows (heap : HeapFromPool mm pt slot) {amount : Nat}
    (found : mm.extended pt slot amount = some after) :
    ∃ frame, Grows mm after pt slot amount frame := by
  unfold extended at found
  dsimp only at found
  split at found
  · rename_i middle frames allocation
    cases found
    have fits := heap.fits allocation
    have sizes := memoryMap
    have grows := pagesBelow_mono (Nat.le_add_right (mm.programbreakTable slot) amount)
    rcases allocFrames_some allocation with ⟨fresh, appended, length, nodup, free, marked⟩
    rw [List.nil_append] at appended
    subst appended
    let start := pagesBelow (mm.programbreakTable slot)
    -- A page of the run is an index of the list of frames.
    have position : ∀ page, mm.Added slot amount page →
        start ≤ page ∧ page < start + frames.length ∧ page - start < frames.length := by
      intro page added
      rw [added_iff] at added
      omega
    have listed : ∀ page (added : mm.Added slot amount page),
        frames.getD (page - start) 0 ∈ frames := by
      intro page added
      exact getD_mem (position page added).2.2
    refine ⟨fun page => frames.getD (page - start) 0, ?_, ?_, ?_, ?_, ?_, ?_, ?_, ?_⟩
    · intro page added
      have below := (position page added).2.1
      omega
    · intro page added
      exact free _ (listed page added)
    · intro page other added again same
      have one := position page added
      have two := position other again
      have index := getD_inj nodup one.2.2 two.2.2 same
      omega
    · intro page added
      have run := position page added
      exact (mapPages_table middle pt start frames page).trans (if_pos ⟨run.1, run.2.1⟩)
    · intro page absent
      rw [added_iff] at absent
      have outside : ¬(start ≤ page ∧ page < start + frames.length) := by omega
      apply (mapPages_table middle pt start frames page).trans
      rw [if_neg outside, marked]
      rfl
    · intro page added
      rw [marked]
      exact if_pos (listed page added)
    · intro other apart
      rw [marked]
      apply if_neg
      intro member
      rcases List.getElem_of_mem member with ⟨index, below, same⟩
      apply apart (start + index)
      · rw [added_iff]
        omega
      · rw [Nat.add_sub_cancel_left, List.getD_eq_getElem _ _ below]
        exact same
    · subst marked
      simp [mapPages, setBreak, mark]
  · cases found

theorem Grows.break_eq {amount : Nat} {frame : Nat → Nat}
    (grows : Grows mm after pt slot amount frame) :
    after.programbreakTable slot = mm.programbreakTable slot + amount := by
  rw [grows.rest]
  exact Function.update_self ..

theorem frameOf_userEntry {page frame : Nat} (mapped : mm.pagusrTable pt page = userEntry frame)
    (small : frame < totalPages) : mm.frameOf pt page = frame := by
  have sizes := memoryMap
  rw [frameOf, mapped, userEntry, BitVec.toNat_ofNat, Nat.mod_eq_of_lt (by omega)]

theorem Grows.frameOf_kept {amount page : Nat} {frame : Nat → Nat}
    (grows : Grows mm after pt slot amount frame) (kept : ¬mm.Added slot amount page) :
    after.frameOf pt page = mm.frameOf pt page := by
  rw [frameOf, frameOf, grows.kept page kept]

theorem Grows.frameOf_added {amount page : Nat} {frame : Nat → Nat}
    (grows : Grows mm after pt slot amount frame) (added : mm.Added slot amount page) :
    after.frameOf pt page = frame page :=
  frameOf_userEntry (grows.mapped page added) (mem_available.mp (grows.wasFree page added)).1

theorem Grows.frame_ne {amount page other : Nat} {frame : Nat → Nat}
    (heap : HeapFromPool mm pt slot) (grows : Grows mm after pt slot amount frame)
    (above : pagLogInitHeap ≤ page) (below : page * pageSize < mm.programbreakTable slot)
    (added : mm.Added slot amount other) : frame other ≠ mm.frameOf pt page := by
  intro same
  have used := (heap.inUse page above below).2
  rw [← same, (mem_available.mp (grows.wasFree other added)).2.2.2] at used
  cases used

theorem Grows.heapFromPool (heap : HeapFromPool mm pt slot) {amount : Nat} {frame : Nat → Nat}
    (grows : Grows mm after pt slot amount frame) : HeapFromPool after pt slot := by
  have sizes := memoryMap
  have bounds := heapBounds
  have moved := grows.break_eq
  have lower := heap.lower
  -- Below the new break a page is below the old one or added.
  have split : ∀ page, page * pageSize < after.programbreakTable slot →
      page * pageSize < mm.programbreakTable slot ∧ ¬mm.Added slot amount page ∨
        mm.Added slot amount page := by
    intro page below
    rw [moved] at below
    simp only [Added]
    omega
  refine ⟨⟨?_, ?_, ?_, ?_, ?_⟩, ?_, ?_⟩
  · omega
  · rw [moved]
    rcases Nat.eq_zero_or_pos amount with none | some
    · rw [none]
      exact heap.upper
    · by_cases full : heapLimit < mm.programbreakTable slot + amount
      · have upper := heap.upper
        have last := grows.inside totalPages ⟨by rw [heapLimit] at upper; exact upper, full⟩
        omega
      · omega
  · intro page above below
    by_cases added : mm.Added slot amount page
    · have present : (after.pagusrTable pt page).present = true := by
        rw [grows.mapped page added]
        rfl
      have within := added.2
      rw [moved]
      exact iff_of_true present within
    · rw [grows.kept page added, heap.present page above below, moved]
      simp only [Added] at added
      omega
  · intro page above below
    rcases split page below with ⟨earlier, kept⟩ | added
    · rcases heap.inUse page above earlier with ⟨small, used⟩
      rw [grows.frameOf_kept kept, grows.marks _ fun other => grows.frame_ne heap above earlier]
      exact ⟨small, used⟩
    · rw [grows.frameOf_added added]
      exact ⟨(mem_available.mp (grows.wasFree page added)).1, grows.taken page added⟩
  · intro page other above below above' below' same
    rcases split page below with ⟨earlier, kept⟩ | added <;>
      rcases split other below' with ⟨earlier', kept'⟩ | added'
    · rw [grows.frameOf_kept kept, grows.frameOf_kept kept'] at same
      exact heap.distinct page other above earlier above' earlier' same
    · rw [grows.frameOf_kept kept, grows.frameOf_added added'] at same
      exact absurd same.symm (grows.frame_ne heap above earlier added')
    · rw [grows.frameOf_added added, grows.frameOf_kept kept'] at same
      exact absurd same (grows.frame_ne heap above' earlier' added)
    · rw [grows.frameOf_added added, grows.frameOf_added added'] at same
      exact grows.distinct page other added added' same
  · intro page above below
    rcases split page below with ⟨earlier, kept⟩ | added
    · rw [grows.frameOf_kept kept]
      exact heap.pooled page above earlier
    · rw [grows.frameOf_added added]
      rcases mem_available.mp (grows.wasFree page added) with ⟨small, reached, even, -⟩
      exact mem_poolFrames.mpr ⟨small, reached, even⟩
  · by_cases taken : ∃ page, mm.Added slot amount page ∧ frame page = numPagKernel
    · rcases taken with ⟨page, added, same⟩
      rw [← same]
      exact grows.taken page added
    · rw [grows.marks numPagKernel fun page added same => taken ⟨page, added, same⟩]
      exact heap.first

theorem available_lt_of_extended {amount : Nat} (missing : mm.extended pt slot amount = none) :
    mm.available.card <
      pagesBelow (mm.programbreakTable slot + amount) - pagesBelow (mm.programbreakTable slot) := by
  have enough := allocFrames_isSome (pagesBelow (mm.programbreakTable slot + amount) -
    pagesBelow (mm.programbreakTable slot)) mm []
  unfold extended at missing
  dsimp only at missing
  generalize allocFrames (pagesBelow (mm.programbreakTable slot + amount) -
    pagesBelow (mm.programbreakTable slot)) mm [] = outcome at *
  rcases outcome with ⟨after, result⟩
  cases result with
  | some frames => cases missing
  | none => exact Nat.not_le.mp (mt enough.mpr Bool.false_ne_true)

theorem allocFrames_eq_none {count : Nat} (allocated : List Nat) :
    (allocFrames count mm allocated).2 = none ↔ mm.available.card < count := by
  rw [← Nat.not_le, ← allocFrames_isSome count mm allocated]
  cases (allocFrames count mm allocated).2 <;> simp

theorem extended_add (mm : Mm) (pt slot : DirSlot) (first second : Nat) :
    mm.extended pt slot (first + second) =
      (mm.extended pt slot first).bind (extended pt slot second) := by
  let last := mm.programbreakTable slot
  have lower := pagesBelow_mono (Nat.le_add_right last first)
  have upper := pagesBelow_mono (Nat.le_add_right (last + first) second)
  have counts : pagesBelow (last + (first + second)) - pagesBelow last =
      (pagesBelow (last + first) - pagesBelow last) +
        (pagesBelow (last + first + second) - pagesBelow (last + first)) := by
    rw [← Nat.add_assoc]
    omega
  rw [extended, counts, allocFrames_add, extended]
  generalize allocation : allocFrames (pagesBelow (last + first) - pagesBelow last) mm [] = outcome
  rcases outcome with ⟨middle, result⟩
  cases result with
  | none => rfl
  | some frames =>
      rcases allocFrames_some allocation with ⟨fresh, appended, length, -, -, -⟩
      rw [List.nil_append] at appended
      subst appended
      let tables := (middle.mapPages pt (pagesBelow last) frames).setBreak slot (last + first)
      have moved : tables.programbreakTable slot = last + first := Function.update_self ..
      have later := allocFrames_withTables
        (pagesBelow (last + first + second) - pagesBelow (last + first)) middle tables []
      change _ = extended pt slot second tables
      rw [extended, moved]
      change (match allocFrames _ middle frames with
        | (after, some frames) => _
        | (_, none) => _) = match allocFrames _ (middle.withTables tables) [] with
        | (after, some frames) => _
        | (_, none) => _
      rw [later]
      generalize continued : allocFrames
        (pagesBelow (last + first + second) - pagesBelow (last + first)) middle [] = outcome
      rcases outcome with ⟨final, result⟩
      cases result with
      | none =>
          have missing := (allocFrames_eq_none frames).mpr
            ((allocFrames_eq_none []).mp (congrArg Prod.snd continued))
          generalize allocFrames _ middle frames = outcome at missing ⊢
          rcases outcome with ⟨other, result⟩
          cases missing
          rfl
      | some more =>
          rw [allocFrames_append continued frames]
          rcases allocFrames_some continued with ⟨fresh, -, -, -, -, marked⟩
          have joined : final.withTables tables =
              (final.mapPages pt (pagesBelow last) frames).setBreak slot (last + first) := by
            rw [marked]
            rfl
          have start : pagesBelow (last + first) = pagesBelow last + frames.length := by omega
          apply congrArg some
          calc (final.mapPages pt (pagesBelow last) (frames ++ more)).setBreak slot
                (last + (first + second))
              = ((final.mapPages pt (pagesBelow last) frames).mapPages pt
                  (pagesBelow (last + first)) more).setBreak slot (last + first + second) := by
                rw [start, mapPages_append, Nat.add_assoc]
            _ = (((final.mapPages pt (pagesBelow last) frames).setBreak slot
              (last + first)).mapPages
                  pt (pagesBelow (last + first)) more).setBreak slot (last + first + second) := by
                simp [setBreak, mapPages]
            _ = ((final.withTables tables).mapPages pt (pagesBelow (last + first)) more).setBreak
                  slot (last + first + second) := by
                rw [joined]

end Mm

/-! ## The system call -/

namespace Kernel

def programbreak (kernel : PointerKernel) : Nat :=
  kernel.core.mm.programbreakTable kernel.currentTask.posInDirCounter

def HeapFromPool (kernel : PointerKernel) : Prop :=
  kernel.core.mm.HeapFromPool kernel.currentTask.dirPagesBaseAddr
    kernel.currentTask.posInDirCounter

/-- Only memory management is replaced. -/
def withMm (kernel : PointerKernel) (mm : Mm) : PointerKernel :=
  kernel.mapCore fun core => core.setMm mm

/-- After booting, with a heap of 5000 bytes. -/
def withSampleHeap : PointerKernel :=
  withMm ⟨Machine.sample.bootCore 0 1, bootLinks⟩ Mm.sampleHeap

theorem withSampleHeap_heapFromPool : withSampleHeap.HeapFromPool :=
  Mm.sampleHeap_heapFromPool _ _

theorem withSampleHeap_programbreak : withSampleHeap.programbreak = heapStart + 5000 := rfl

end Kernel

open Kernel

variable {kernel : PointerKernel}

theorem sysSbrk_eq_extended (heap : kernel.HeapFromPool) {increment : Int}
    (nonneg : 0 ≤ increment) (int : IsInt increment) :
    kernel.sysSbrk increment = .ok
      (if totalPages < (kernel.programbreak + increment.toNat) / pageSize then (kernel, -enomem)
      else
        match kernel.core.mm.extended kernel.currentTask.dirPagesBaseAddr
            kernel.currentTask.posInDirCounter increment.toNat with
        | some after => (kernel.withMm after, kernel.programbreak)
        | none => (kernel, -enomem)) := by
  rw [sysSbrk, Mm.sbrk_eq_extended heap nonneg int, ok_bind, programbreak]
  by_cases beyond : totalPages < (kernel.core.mm.programbreakTable
      kernel.currentTask.posInDirCounter + increment.toNat) / pageSize
  · rw [if_pos beyond, if_pos beyond]
    rfl
  · rw [if_neg beyond, if_neg beyond]
    cases kernel.core.mm.extended kernel.currentTask.dirPagesBaseAddr
      kernel.currentTask.posInDirCounter increment.toNat <;> rfl

/-- A call of `sys_sbrk` grows the heap exactly as asked, or reports that there is no
memory and changes nothing. -/
theorem sbrkGrows (heap : kernel.HeapFromPool) {increment : Int} (int : IsInt increment)
    (nonneg : 0 ≤ increment) :
    (∃ mm frame, kernel.sysSbrk increment = .ok (kernel.withMm mm, kernel.programbreak) ∧
      Mm.Grows kernel.core.mm mm kernel.currentTask.dirPagesBaseAddr
        kernel.currentTask.posInDirCounter increment.toNat frame) ∨
    kernel.sysSbrk increment = .ok (kernel, -enomem) ∧
      (totalPages < (kernel.programbreak + increment.toNat) / pageSize ∨
        kernel.core.mm.available.card <
          pagesBelow (kernel.programbreak + increment.toNat) - pagesBelow kernel.programbreak) := by
  rw [sysSbrk_eq_extended heap nonneg int]
  by_cases beyond : totalPages < (kernel.programbreak + increment.toNat) / pageSize
  · rw [if_pos beyond]
    exact .inr ⟨rfl, .inl beyond⟩
  · rw [if_neg beyond]
    generalize extension : kernel.core.mm.extended kernel.currentTask.dirPagesBaseAddr
      kernel.currentTask.posInDirCounter increment.toNat = outcome
    cases outcome with
    | some mm =>
        rcases Mm.extended_grows heap extension with ⟨frame, grows⟩
        exact .inl ⟨mm, frame, rfl, grows⟩
    | none => exact .inr ⟨rfl, .inr (Mm.available_lt_of_extended extension)⟩

theorem sbrkGrows_page : withSampleHeap.HeapFromPool ∧
    ((∃ mm frame, withSampleHeap.sysSbrk 4096 =
        .ok (withSampleHeap.withMm mm, withSampleHeap.programbreak) ∧
      Mm.Grows withSampleHeap.core.mm mm withSampleHeap.currentTask.dirPagesBaseAddr
        withSampleHeap.currentTask.posInDirCounter 4096 frame) ∨
    withSampleHeap.sysSbrk 4096 = .ok (withSampleHeap, -enomem) ∧
      (totalPages < (withSampleHeap.programbreak + 4096) / pageSize ∨
        withSampleHeap.core.mm.available.card <
          pagesBelow (withSampleHeap.programbreak + 4096) -
            pagesBelow withSampleHeap.programbreak)) :=
  ⟨withSampleHeap_heapFromPool,
    @sbrkGrows withSampleHeap withSampleHeap_heapFromPool 4096 (by constructor <;> decide)
      (by decide)⟩

/-! ## Two calls -/

/-- The call returns something else than -ENOMEM. -/
def SbrkSucceeds (kernel : PointerKernel) (increment : Int) (after : PointerKernel)
    (result : Int) : Prop :=
  kernel.sysSbrk increment = .ok (after, result) ∧ result ≠ -enomem

theorem sbrkSucceeds_iff (heap : kernel.HeapFromPool) {increment : Int} (nonneg : 0 ≤ increment)
    (int : IsInt increment) {after : PointerKernel} {result : Int} :
    SbrkSucceeds kernel increment after result ↔
      (kernel.programbreak + increment.toNat) / pageSize ≤ totalPages ∧
        result = kernel.programbreak ∧
        ∃ mm, kernel.core.mm.extended kernel.currentTask.dirPagesBaseAddr
          kernel.currentTask.posInDirCounter increment.toNat = some mm ∧
            after = kernel.withMm mm := by
  have negative : -enomem ≠ (kernel.programbreak : Int) := by
    have numbers := errorNumbers
    omega
  rw [SbrkSucceeds, sysSbrk_eq_extended heap nonneg int]
  by_cases beyond : totalPages < (kernel.programbreak + increment.toNat) / pageSize
  · rw [if_pos beyond]
    constructor
    · rintro ⟨same, different⟩
      cases same
      exact absurd rfl different
    · rintro ⟨within, -⟩
      omega
  · rw [if_neg beyond]
    generalize kernel.core.mm.extended kernel.currentTask.dirPagesBaseAddr
      kernel.currentTask.posInDirCounter increment.toNat = outcome
    cases outcome with
    | none =>
        constructor
        · rintro ⟨same, different⟩
          cases same
          exact absurd rfl different
        · rintro ⟨-, -, mm, missing, -⟩
          cases missing
    | some mm =>
        constructor
        · rintro ⟨same, -⟩
          cases same
          exact ⟨Nat.not_lt.mp beyond, rfl, mm, rfl, rfl⟩
        · rintro ⟨-, value, other, same, final⟩
          cases same
          rw [value, final]
          exact ⟨rfl, negative.symm⟩

theorem SbrkSucceeds.unique {increment : Int} {after other : PointerKernel} {result value : Int}
    (succeeds : SbrkSucceeds kernel increment after result)
    (again : SbrkSucceeds kernel increment other value) : after = other ∧ result = value := by
  have same := succeeds.1.symm.trans again.1
  cases same
  exact ⟨rfl, rfl⟩

theorem SbrkSucceeds.grown (heap : kernel.HeapFromPool) {increment : Int} (nonneg : 0 ≤ increment)
    (int : IsInt increment) {after : PointerKernel} {result : Int}
    (succeeds : SbrkSucceeds kernel increment after result) :
    after.HeapFromPool ∧ after.programbreak = kernel.programbreak + increment.toNat ∧
      after.currentTask = kernel.currentTask := by
  rcases (sbrkSucceeds_iff heap nonneg int).mp succeeds with ⟨-, -, mm, extension, final⟩
  rcases Mm.extended_grows heap extension with ⟨frame, grows⟩
  rw [final]
  exact ⟨grows.heapFromPool heap, grows.break_eq, rfl⟩

section Twice

variable {first second : Int} {middle after : PointerKernel} {result result' : Int}

theorem SbrkSucceeds.add (heap : kernel.HeapFromPool) (nonneg : 0 ≤ first) (nonneg' : 0 ≤ second)
    (small : first + second ≤ 2147483647) (one : SbrkSucceeds kernel first middle result)
    (two : SbrkSucceeds middle second after result') :
    SbrkSucceeds kernel (first + second) after kernel.programbreak ∧
      result' = kernel.programbreak + first := by
  have intFirst : IsInt first := by constructor <;> omega
  have intSecond : IsInt second := by constructor <;> omega
  have intSum : IsInt (first + second) := by constructor <;> omega
  have sum : (first + second).toNat = first.toNat + second.toNat := by omega
  rcases one.grown heap nonneg intFirst with ⟨heapMiddle, moved, sameTask⟩
  rcases (sbrkSucceeds_iff heap nonneg intFirst).mp one with ⟨-, -, mm, extension, there⟩
  rcases (sbrkSucceeds_iff heapMiddle nonneg' intSecond).mp two with
    ⟨within, value, last, continued, final⟩
  constructor
  · rw [sbrkSucceeds_iff heap (Int.add_nonneg nonneg nonneg') intSum, sum]
    refine ⟨?_, rfl, last, ?_, ?_⟩
    · rw [moved] at within
      rwa [← Nat.add_assoc]
    · rw [Mm.extended_add, extension]
      rw [there] at continued
      exact continued
    · rw [final, there]
      rfl
  · rw [value, moved]
    omega

theorem SbrkSucceeds.split (heap : kernel.HeapFromPool) (nonneg : 0 ≤ first)
    (nonneg' : 0 ≤ second) (small : first + second ≤ 2147483647)
    (whole : SbrkSucceeds kernel (first + second) after result) :
    ∃ middle result', SbrkSucceeds kernel first middle kernel.programbreak ∧
      SbrkSucceeds middle second after result' := by
  have sizes := memoryMap
  have intFirst : IsInt first := by constructor <;> omega
  have intSecond : IsInt second := by constructor <;> omega
  have intSum : IsInt (first + second) := by constructor <;> omega
  have sum : (first + second).toNat = first.toNat + second.toNat := by omega
  rcases (sbrkSucceeds_iff heap (Int.add_nonneg nonneg nonneg') intSum).mp whole with
    ⟨within, -, last, extension, final⟩
  rw [sum, Mm.extended_add] at extension
  rw [sum] at within
  rcases Option.bind_eq_some_iff.mp extension with ⟨mm, start, continued⟩
  have one : SbrkSucceeds kernel first (kernel.withMm mm) kernel.programbreak := by
    rw [sbrkSucceeds_iff heap nonneg intFirst]
    refine ⟨?_, rfl, mm, start, rfl⟩
    apply le_trans _ within
    apply Nat.div_le_div_right
    omega
  rcases one.grown heap nonneg intFirst with ⟨heapMiddle, moved, -⟩
  refine ⟨kernel.withMm mm, (kernel.withMm mm).programbreak, one, ?_⟩
  rw [sbrkSucceeds_iff heapMiddle nonneg' intSecond, moved]
  refine ⟨?_, rfl, last, continued, ?_⟩
  · rwa [Nat.add_assoc]
  · rw [final]
    rfl

end Twice

/-- Growing by a sum is growing twice. -/
theorem sbrkComposes (heap : kernel.HeapFromPool) {first second : Int} (nonneg : 0 ≤ first)
    (nonneg' : 0 ≤ second) (small : first + second ≤ 2147483647) :
    ((∃ whole result, SbrkSucceeds kernel (first + second) whole result) ↔
      ∃ middle after result result', SbrkSucceeds kernel first middle result ∧
        SbrkSucceeds middle second after result') ∧
    ∀ whole middle after result result' result'',
      SbrkSucceeds kernel (first + second) whole result →
      SbrkSucceeds kernel first middle result' → SbrkSucceeds middle second after result'' →
      after = whole ∧ result'' = kernel.programbreak + first := by
  refine ⟨⟨?_, ?_⟩, ?_⟩
  · rintro ⟨whole, result, succeeds⟩
    rcases succeeds.split heap nonneg nonneg' small with ⟨middle, result', one, two⟩
    exact ⟨middle, whole, _, result', one, two⟩
  · rintro ⟨middle, after, result, result', one, two⟩
    exact ⟨after, _, (one.add heap nonneg nonneg' small two).1⟩
  · intro whole middle after result result' result'' succeeds one two
    rcases one.add heap nonneg nonneg' small two with ⟨together, value⟩
    exact ⟨(together.unique succeeds).1, value⟩

theorem sampleHeap_succeeds {increment : Int} (nonneg : 0 ≤ increment) (int : IsInt increment)
    (within : (heapStart + 5000 + increment.toNat) / pageSize ≤ totalPages)
    (found : ∀ pt slot, (Mm.sampleHeap.extended pt slot increment.toNat).isSome = true) :
    ∃ after result, SbrkSucceeds withSampleHeap increment after result := by
  rcases Option.isSome_iff_exists.mp (found _ _) with ⟨mm, extension⟩
  exact ⟨_, _, (sbrkSucceeds_iff withSampleHeap_heapFromPool nonneg int).mpr
    ⟨within, rfl, mm, extension, rfl⟩⟩

theorem sbrkComposes_pages : withSampleHeap.HeapFromPool ∧
    ∃ middle after result result', SbrkSucceeds withSampleHeap 3000 middle result ∧
      SbrkSucceeds middle 3000 after result' := by
  have whole := @sampleHeap_succeeds (3000 + 3000) (by decide) (by constructor <;> decide)
    (by decide) (by decide +kernel)
  exact ⟨withSampleHeap_heapFromPool,
    (sbrkComposes withSampleHeap_heapFromPool (by decide) (by decide) (by decide)).1.mp whole⟩

end Zeos
