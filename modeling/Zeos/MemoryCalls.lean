import Zeos.BootMemory
import Zeos.ForkPages
import Zeos.HeapShrinking

/-! # The calls that change memory

What `sys_sbrk`, `sys_exit` and `sys_fork` do to memory when they return, for the
program breaks that there can be, and what holds of memory in every run.
-/

namespace Zeos

open Foundation

namespace Mm

variable {mm after : Mm} {pt child father slot : DirSlot}

def BreakSet (mm : Mm) (slot : DirSlot) : Prop :=
  mm.programbreakTable slot = 0 ∨ HeapBreak mm slot

/-! ## `sys_sbrk` -/

theorem mapLoop_inside {start : Nat} {frames : List Nat} {count : Nat}
    (finished : countedLoop (fun i mm => mm.setSsPag pt (start + i) (frames.getD i 0)) 0 count mm =
      .ok after) : count = 0 ∨ start + count ≤ totalPages := by
  have reached := countedLoop_invariant (fun i _ => i = 0 ∨ start + i ≤ totalPages) finished
    (.inl rfl) fun i current next _ _ _ written => by
      unfold setSsPag at written
      split at written
      · rename_i inside
        exact .inr inside
      · cases written
  rwa [Nat.zero_add] at reached

inductive SbrkEffect (mm : Mm) (pt slot : DirSlot) (increment : Int) : Mm → Prop
  | unchanged : SbrkEffect mm pt slot increment mm
  | grown (frames : List Nat) (positive : 0 < increment)
      (inHeap : heapStart ≤ mm.programbreakTable slot)
      (found : allocFrames (pagesBelow (mm.programbreakTable slot + increment.toNat) -
          pagesBelow (mm.programbreakTable slot)) mm [] =
        (mm.mark frames .usedFrame, some frames))
      (lower : heapStart ≤ mm.programbreakTable slot + increment.toNat)
      (upper : mm.programbreakTable slot + increment.toNat ≤ heapLimit) :
      SbrkEffect mm pt slot increment
        (((mm.mark frames .usedFrame).mapPages pt (pagesBelow (mm.programbreakTable slot))
          frames).setBreak slot (mm.programbreakTable slot + increment.toNat))
  | shrunk (negative : increment < 0) (lower : heapStart ≤ mm.programbreakTable slot)
      (upper : mm.programbreakTable slot < heapLimit)
      (aboveZero : 0 ≤ mm.programbreakTable slot + increment) :
      SbrkEffect mm pt slot increment
        ((mm.unmapPages pt (released (mm.programbreakTable slot)
          (mm.programbreakTable slot + increment).toNat)).setBreak slot
            (max heapStart (mm.programbreakTable slot + increment).toNat))

theorem setBreak_self (mm : Mm) (slot : DirSlot) :
    mm.setBreak slot (mm.programbreakTable slot) = mm := by
  cases mm with
  | mk physMem pagusrTable dirCounter programbreakTable ram =>
      simp [setBreak]

theorem sbrkGrow_false {endaddress : Nat} (first : mm.physMem numPagKernel = .usedFrame)
    (grown : sbrkGrow pt slot endaddress mm = .ok (after, false)) : after = mm := by
  generalize growth : sbrkGrowth (mm.programbreakTable slot) endaddress = grows
  rcases grows with ⟨npages, tpentry⟩
  rcases sbrkGrow_inv growth grown with ⟨-, allocation⟩ | ⟨enough, -⟩
  · rw [← mark_nil mm .usedFrame] at allocation
    exact allocFrames_none allocation (by simp) first
  · cases enough

theorem sbrkGrow_true {endaddress : Nat} (grows : mm.programbreakTable slot ≤ endaddress)
    (small : endaddress < 4294967296)
    (grown : sbrkGrow pt slot endaddress mm = .ok (after, true)) :
    numPagKernel ≤ pagesBelow (mm.programbreakTable slot) ∧
      ∃ frames, allocFrames (pagesBelow endaddress - pagesBelow (mm.programbreakTable slot)) mm [] =
        (mm.mark frames .usedFrame, some frames) ∧
      (pagesBelow endaddress ≤ pagesBelow (mm.programbreakTable slot) ∨
        pagesBelow endaddress ≤ totalPages) ∧
      after = (mm.mark frames .usedFrame).mapPages pt (pagesBelow (mm.programbreakTable slot))
        frames := by
  rcases sbrkGrow_inv (sbrkGrowth_eq grows small) grown with
    ⟨enough, -⟩ | ⟨-, above, middle, frames, allocation, loop⟩
  · cases enough
  · rcases allocFrames_some allocation with ⟨fresh, same, length, -, -, marked⟩
    rw [List.nil_append] at same
    subst same marked
    have inside := mapLoop_inside loop
    refine ⟨above, frames, allocation, ?_, ?_⟩
    · rcases inside with none | inside
      · exact .inl (by omega)
      · by_cases more : pagesBelow endaddress ≤ pagesBelow (mm.programbreakTable slot)
        · exact .inl more
        · exact .inr (by omega)
    · rcases inside with none | inside
      · rw [none] at length loop
        rw [List.length_eq_zero_iff.mp length, mapPages_nil]
        cases loop
        rw [List.length_eq_zero_iff.mp length]
      · rw [← length] at inside loop
        rw [mapLoop_eq _ pt _ frames inside] at loop
        exact (Except.ok.inj loop).symm

theorem pagesBelow_le_totalPages {address : Nat} :
    pagesBelow address ≤ totalPages ↔ address ≤ heapLimit := by
  have sizes := memoryMap
  have bounds := heapBounds
  simp only [pagesBelow, sizes]
  omega

theorem sbrk_zero_ne_ok {increment : Int} (negative : increment < 0) (int : IsInt increment)
    (unset : mm.programbreakTable slot = 0) (result : Mm × Option Nat) :
    mm.sbrk pt slot increment ≠ .ok result := by
  have sizes := memoryMap
  have bounded := int.1
  intro finished
  rw [sbrk] at finished
  dsimp only at finished
  rw [if_neg fun refused => by omega, if_neg (by omega), if_pos negative] at finished
  rcases bind_eq_ok.mp finished with ⟨middle, shrunk, -⟩
  rw [sbrkShrink] at shrunk
  rcases bind_eq_ok.mp shrunk with ⟨released, loop, -⟩
  have here : mm.endaddress slot increment = (4294967296 + increment).toNat := by
    rw [endaddress, toUnsigned, unset]
    omega
  rw [here, unset] at loop
  have many : 1 < toUnsigned (((0 / pageSize : Nat) : Int) -
      (max ((4294967296 + increment).toNat / pageSize) pagLogInitHeap : Nat)) := by
    simp only [sizes, toUnsigned]
    omega
  apply releaseLoop_outside mm released pt
    (fun i => toUnsigned (((0 / pageSize : Nat) : Int) - (i : Nat))) many _ loop
  simp only [sizes, toUnsigned]
  decide

theorem sbrk_effect {increment : Int} {result : Option Nat} (int : IsInt increment)
    (breakSet : BreakSet mm slot) (first : mm.physMem numPagKernel = .usedFrame)
    (moved : mm.sbrk pt slot increment = .ok (after, result)) :
    SbrkEffect mm pt slot increment after := by
  have sizes := memoryMap
  have bounds := heapBounds
  have upper : mm.programbreakTable slot ≤ heapLimit := by
    rcases breakSet with unset | heap
    · omega
    · exact heap.2
  rcases Int.lt_or_le increment 0 with negative | nonneg
  · rcases breakSet with unset | heap
    · exact absurd moved (sbrk_zero_ne_ok negative int unset _)
    · by_cases bad : mm.programbreakTable slot = heapLimit ∨
        mm.programbreakTable slot + increment < 0
      · exact absurd moved (sbrk_ne_ok negative int heap.1 upper bad _)
      · rw [not_or, Int.not_lt] at bad
        have below : mm.programbreakTable slot < heapLimit := by omega
        rw [sbrk_eq_unmapped negative heap.1 below bad.2] at moved
        cases moved
        exact .shrunk negative heap.1 below bad.2
  · have bounded := int.2
    rw [sbrk, endaddress_eq upper nonneg int] at moved
    dsimp only at moved
    split at moved
    · cases moved
      exact .unchanged
    · rename_i accepted
      rw [not_and_or, not_or] at accepted
      have limits := accepted.resolve_left fun refused => refused nonneg
      have lower : heapStart ≤ mm.programbreakTable slot + increment.toNat := by
        have above := limits.1
        simp only [toSigned, sizes] at above
        split at above <;> omega
      split at moved
      · rename_i positive
        rcases bind_eq_ok.mp moved with ⟨⟨grown, enough⟩, grows, rest⟩
        cases enough with
        | false =>
            cases rest
            rw [sbrkGrow_false first grows]
            exact .unchanged
        | true =>
            cases rest
            rcases sbrkGrow_true (Nat.le_add_right _ _) (by omega) grows with
              ⟨above, frames, found, inside, same⟩
            subst same
            have inHeap : heapStart ≤ mm.programbreakTable slot := by
              refine (breakSet.resolve_left fun unset => ?_).1
              rw [unset] at above
              exact absurd above (by decide)
            apply SbrkEffect.grown frames positive inHeap found lower
            apply pagesBelow_le_totalPages.mp
            have before := pagesBelow_le_totalPages.mpr upper
            omega
      · split at moved
        · rename_i negative
          exact absurd nonneg (Int.not_le.mpr negative)
        · rename_i notPositive _
          cases moved
          have zero : increment.toNat = 0 := by omega
          rw [zero, Nat.add_zero, setBreak_self]
          exact .unchanged

/-! ## `sys_exit` -/

theorem unmapPages_other (mm : Mm) {other : DirSlot} (pages : List Nat) (different : other ≠ pt) :
    (mm.unmapPages pt pages).pagusrTable other = mm.pagusrTable other :=
  Function.update_of_ne different _ _

theorem releaseRange_eq (mm : Mm) (pt : DirSlot) (pages : List Nat) {start count : Nat}
    (inside : start + count ≤ totalPages) :
    countedLoop (releasePage pt) start count (mm.unmapPages pt pages) =
      .ok (mm.unmapPages pt (pages ++ List.range' start count)) := by
  have loop := @countedLoop_closedForm Fault Mm (releasePage pt)
    (fun index => mm.unmapPages pt (pages ++ List.range' start (index - start))) start count
  rw [Nat.sub_self, List.range'_zero, List.append_nil, Nat.add_sub_cancel_left] at loop
  apply loop
  intro index above below
  have longer :
      List.range' start (index + 1 - start) = List.range' start (index - start) ++ [index] := by
    rw [Nat.succ_sub above, List.range'_concat]
    congr 2
    omega
  rw [longer, ← List.append_assoc]
  exact releasePage_unmapPages mm pt _ (by omega)

theorem releaseRange_inside {start count : Nat}
    (finished : countedLoop (releasePage pt) start count mm = .ok after) :
    count = 0 ∨ start + count ≤ totalPages := by
  have reached := countedLoop_invariant (fun index _ => index = start ∨ index ≤ totalPages) finished
    (.inl rfl) fun index current next _ _ _ released => by
      unfold releasePage getFrame at released
      split at released
      · rename_i inside
        exact .inr inside
      · cases released
  omega

/-- The pages that an exit gives back: the data pages and the heap pages up to the one
of the break. -/
def exitPages (programbreak : Nat) : List Nat :=
  List.range' pagLogInitData numPagData ++
    List.range' pagLogInitHeap (programbreak / pageSize + 1 - pagLogInitHeap)

theorem mem_exitPages {programbreak page : Nat} :
    page ∈ exitPages programbreak ↔
      pagLogInitData ≤ page ∧ (page < pagLogInitHeap ∨ page ≤ programbreak / pageSize) := by
  have sizes := memoryMap
  rw [exitPages, List.mem_append, List.mem_range'_1, List.mem_range'_1]
  omega

theorem BreakSet.upper (breakSet : BreakSet mm slot) : mm.programbreakTable slot ≤ heapLimit := by
  rcases breakSet with unset | heap
  · omega
  · exact heap.2

theorem freeUserPages_eq_ok (breakSet : BreakSet mm slot) :
    mm.freeUserPages pt slot = .ok after ↔
      mm.programbreakTable slot < heapLimit ∧
        after = mm.unmapPages pt (exitPages (mm.programbreakTable slot)) := by
  have sizes := memoryMap
  have bounds := heapBounds
  have upper := breakSet.upper
  have data := @releaseRange_eq mm pt [] pagLogInitData numPagData (by omega)
  rw [unmapPages_nil, List.nil_append] at data
  have count : (toSigned (mm.programbreakTable slot) / pageSize + 1 - pagLogInitHeap).toNat =
      mm.programbreakTable slot / pageSize + 1 - pagLogInitHeap := by
    simp only [toSigned, sizes]
    split <;> omega
  rw [freeUserPages, data, ok_bind]
  change countedLoop (releasePage pt) pagLogInitHeap
    (toSigned (mm.programbreakTable slot) / pageSize + 1 - pagLogInitHeap).toNat _ = _ ↔ _
  rw [count]
  constructor
  · intro finished
    rcases releaseRange_inside finished with none | inside
    · have unset : mm.programbreakTable slot < heapLimit := by
        simp only [sizes] at none
        omega
      apply And.intro unset
      rw [exitPages, none, List.range'_zero, List.append_nil]
      rw [none] at finished
      exact (Except.ok.inj finished).symm
    · have below : mm.programbreakTable slot < heapLimit := by
        simp only [sizes] at inside
        omega
      apply And.intro below
      rw [releaseRange_eq mm pt _ inside] at finished
      exact (Except.ok.inj finished).symm
  · rintro ⟨below, same⟩
    rw [same]
    apply releaseRange_eq mm pt
    simp only [sizes]
    omega

def uncount (mm : Mm) (pt : DirSlot) : Mm :=
  { mm with dirCounter := Function.update mm.dirCounter pt (mm.dirCounter pt - 1) }

theorem releaseDir_eq_ok (breakSet : BreakSet mm slot) :
    mm.releaseDir pt slot = .ok after ↔
      if mm.dirCounter pt = 1 then
        mm.programbreakTable slot < heapLimit ∧
          after = (mm.uncount pt).unmapPages pt (exitPages (mm.programbreakTable slot))
      else after = mm.uncount pt := by
  have counter : (mm.uncount pt).dirCounter pt = mm.dirCounter pt - 1 := Function.update_self _ _ _
  change (if (mm.uncount pt).dirCounter pt = 0 then (mm.uncount pt).freeUserPages pt slot
    else .ok (mm.uncount pt)) = .ok after ↔ _
  rw [counter]
  by_cases last : mm.dirCounter pt = 1
  · rw [if_pos last, if_pos (by omega)]
    exact @freeUserPages_eq_ok (mm.uncount pt) after pt slot breakSet
  · rw [if_neg last, if_neg (by omega), Except.ok.injEq]
    exact eq_comm

/-! ## `sys_fork` -/

theorem shareLoop_inside {start count : Nat}
    (finished : countedLoop (copyEntry child father) start count mm = .ok after) :
    count = 0 ∨ start + count ≤ totalPages := by
  have reached := countedLoop_invariant (fun index _ => index = start ∨ index ≤ totalPages) finished
    (.inl rfl) fun index current next _ _ _ copied => by
      unfold copyEntry getFrame at copied
      split at copied
      · rename_i inside
        exact .inr inside
      · cases copied
  omega

theorem forkPages_ne_ok (unset : mm.programbreakTable slot = 0) (result : Mm × Bool) :
    forkPages child father slot mm ≠ .ok result := by
  have sizes := memoryMap
  intro forked
  rcases bind_eq_ok.mp forked with ⟨shared, share, -⟩
  rcases bind_eq_ok.mp share with ⟨code, copiedCode, rest⟩
  rcases bind_eq_ok.mp rest with ⟨kernel, copiedKernel, copiedHeap⟩
  have loops : ∀ {start count : Nat} {first last : Mm},
      countedLoop (copyEntry child father) start count first = .ok last →
        last.programbreakTable = first.programbreakTable := by
    intro start count first last finished
    refine (loop_bookkept (fun index current next copied => ?_) finished).programbreakTable
    rw [copyEntry_eq_ok copied]
    exact ⟨rfl, rfl⟩
  have still : kernel.programbreakTable slot = 0 := by
    rw [loops copiedKernel, loops copiedCode, unset]
  have pages : kernel.programbreakPage slot = 1048575 := by
    rw [programbreakPage, still]
    decide
  rw [pages] at copiedHeap
  rcases shareLoop_inside copiedHeap with none | inside
  · omega
  · omega

/-! ## Memory in every run -/

def codeFrames : Finset Nat := poolFrames.filter fun frame => frame < numPagKernel + 2 * numPagCode

theorem mem_codeFrames {frame : Nat} :
    frame ∈ codeFrames ↔
      frame % 2 = 0 ∧ numPagKernel ≤ frame ∧ frame < numPagKernel + 2 * numPagCode := by
  have sizes := memoryMap
  rw [codeFrames, Finset.mem_filter, mem_poolFrames]
  omega

/-- All breaks are such as there can be, and the frames of the code stay in use, behind
no page of data or heap. -/
structure Managed (mm : Mm) : Prop where
  breaks : ∀ slot, BreakSet mm slot
  used : ∀ frame ∈ codeFrames, mm.physMem frame = .usedFrame
  apart : ∀ pt page, pagLogInitData ≤ page → mm.frameOf pt page ∉ codeFrames

theorem Managed.first (managed : mm.Managed) : mm.physMem numPagKernel = .usedFrame := by
  apply managed.used
  decide +kernel

theorem Managed.available (managed : mm.Managed) {frame : Nat} (free : frame ∈ mm.available) :
    frame ∉ codeFrames := by
  intro code
  have used := managed.used frame code
  rw [(mem_available.mp free).2.2.2] at used
  cases used

theorem frameOf_congr {other : DirSlot} {page : Nat}
    (same : after.pagusrTable pt page = mm.pagusrTable other page) :
    after.frameOf pt page = mm.frameOf other page := by
  rw [frameOf, same]
  rfl

/-- Frames of the code are not freed, and pages of data and heap are cleared, get a
frame that was to be had, or one behind the same page of another table. -/
theorem Managed.of_entries (managed : mm.Managed) (breaks : ∀ slot, BreakSet after slot)
    (marks : ∀ frame ∈ codeFrames, after.physMem frame = mm.physMem frame)
    (entries : ∀ pt page, pagLogInitData ≤ page → after.frameOf pt page = 0 ∨
      after.frameOf pt page ∈ mm.available ∨
        ∃ other, after.frameOf pt page = mm.frameOf other page) : after.Managed := by
  refine ⟨breaks, fun frame code => (marks frame code).trans (managed.used frame code), ?_⟩
  intro pt page above
  rcases entries pt page above with none | free | ⟨other, same⟩
  · rw [none]
    decide +kernel
  · exact managed.available free
  · rw [same]
    exact managed.apart other page above

theorem Managed.mark (managed : mm.Managed) {frames : List Nat}
    (members : ∀ frame ∈ frames, frame ∈ mm.available) :
    ∀ frame ∈ codeFrames, (mm.mark frames .usedFrame).physMem frame = mm.physMem frame := by
  intro frame code
  exact if_neg fun listed => managed.available (members frame listed) code

theorem Managed.unmap (managed : mm.Managed) {pages : List Nat}
    (above : ∀ page ∈ pages, pagLogInitData ≤ page) {address : Nat}
    (range : heapStart ≤ address ∧ address ≤ heapLimit) :
    (mm.unmapPages pt pages).Managed ∧
      ((mm.unmapPages pt pages).setBreak slot address).Managed := by
  have marks : ∀ frame ∈ codeFrames, (mm.unmapPages pt pages).physMem frame = mm.physMem frame := by
    intro frame code
    apply if_neg
    rintro ⟨-, listed⟩
    rcases List.mem_map.mp listed with ⟨page, member, same⟩
    exact managed.apart pt page (above page member) (same ▸ code)
  have entries : ∀ other page, pagLogInitData ≤ page →
      (mm.unmapPages pt pages).frameOf other page = 0 ∨
        (mm.unmapPages pt pages).frameOf other page ∈ mm.available ∨
          ∃ table, (mm.unmapPages pt pages).frameOf other page = mm.frameOf table page := by
    intro other page _
    by_cases samePt : other = pt
    · subst samePt
      rw [frameOf, unmapPages_table]
      split
      · exact .inl rfl
      · exact .inr (.inr ⟨other, rfl⟩)
    · exact .inr (.inr ⟨other, frameOf_congr (congrFun (unmapPages_other mm pages samePt) page)⟩)
  refine ⟨managed.of_entries managed.breaks marks entries,
    managed.of_entries (fun other => ?_) marks entries⟩
  by_cases here : other = slot
  · subst here
    apply Or.inr
    have set :
        ((mm.unmapPages pt pages).setBreak other address).programbreakTable other = address :=
      Function.update_self _ _ _
    rw [HeapBreak, set]
    exact range
  · have kept : ((mm.unmapPages pt pages).setBreak slot address).programbreakTable other =
        mm.programbreakTable other := Function.update_of_ne here _ _
    have before := managed.breaks other
    rw [BreakSet, HeapBreak] at before ⊢
    rwa [kept]

theorem mapPages_other (mm : Mm) {other : DirSlot} (start : Nat) (frames : List Nat)
    (different : other ≠ pt) :
    (mm.mapPages pt start frames).pagusrTable other = mm.pagusrTable other :=
  Function.update_of_ne different _ _

theorem allocFrames_getD {count index : Nat} {frames : List Nat}
    (found : allocFrames count mm [] = (after, some frames)) (below : index < count) :
    frames.getD index 0 ∈ mm.available := by
  rcases allocFrames_some found with ⟨fresh, same, length, -, members, -⟩
  rw [List.nil_append] at same
  subst same
  rw [← length] at below
  exact members _ (getD_mem below)

theorem allocFrames_members {count : Nat} {frames : List Nat}
    (found : allocFrames count mm [] = (after, some frames)) :
    frames.length = count ∧ frames.Nodup ∧ ∀ frame ∈ frames, frame ∈ mm.available := by
  rcases allocFrames_some found with ⟨fresh, same, length, nodup, members, -⟩
  rw [List.nil_append] at same
  subst same
  exact ⟨length, nodup, members⟩

theorem frameOf_available {frame page : Nat} (available : frame ∈ mm.available)
    (entry : after.pagusrTable pt page = userEntry frame) :
    after.frameOf pt page ∈ mm.available := by
  rw [frameOf, entry, userEntry_toNat (mem_available.mp available).1]
  exact available

theorem Managed.sbrk (managed : mm.Managed) {increment : Int}
    (effect : SbrkEffect mm pt slot increment after) : after.Managed := by
  have sizes := memoryMap
  have bounds := heapBounds
  cases effect with
  | unchanged => exact managed
  | grown frames positive inHeap found lower upper =>
      rcases allocFrames_members found with ⟨length, -, members⟩
      refine managed.of_entries ?_ (managed.mark members) ?_
      · intro other
        let moved := ((mm.mark frames .usedFrame).mapPages pt
          (pagesBelow (mm.programbreakTable slot)) frames).setBreak slot
            (mm.programbreakTable slot + increment.toNat)
        by_cases here : other = slot
        · subst here
          have set : moved.programbreakTable other =
              mm.programbreakTable other + increment.toNat := Function.update_self _ _ _
          apply Or.inr
          change heapStart ≤ moved.programbreakTable other ∧
            moved.programbreakTable other ≤ heapLimit
          rw [set]
          exact ⟨lower, upper⟩
        · have kept : moved.programbreakTable other = mm.programbreakTable other :=
            Function.update_of_ne here _ _
          have before := managed.breaks other
          change moved.programbreakTable other = 0 ∨
            heapStart ≤ moved.programbreakTable other ∧ moved.programbreakTable other ≤ heapLimit
          rw [kept]
          exact before
      · intro other page _
        let mapped := (mm.mark frames .usedFrame).mapPages pt
          (pagesBelow (mm.programbreakTable slot)) frames
        change mapped.frameOf other page = 0 ∨ mapped.frameOf other page ∈ mm.available ∨
          ∃ table, mapped.frameOf other page = mm.frameOf table page
        by_cases samePt : other = pt
        · subst samePt
          have table := mapPages_table (mm.mark frames .usedFrame) other
            (pagesBelow (mm.programbreakTable slot)) frames page
          by_cases fresh : pagesBelow (mm.programbreakTable slot) ≤ page ∧
              page < pagesBelow (mm.programbreakTable slot) + frames.length
          · rw [if_pos fresh] at table
            exact .inr (.inl (frameOf_available (allocFrames_getD found (by omega)) table))
          · rw [if_neg fresh] at table
            exact .inr (.inr ⟨other, frameOf_congr table⟩)
        · exact .inr (.inr ⟨other, frameOf_congr (congrFun (mapPages_other _ _ _ samePt) page)⟩)
  | shrunk negative lower upper aboveZero =>
      refine (managed.unmap ?_ ⟨Nat.le_max_left _ _, ?_⟩).2
      · intro page member
        rcases mem_released.mp member with ⟨above, -⟩ | ⟨-, same⟩ <;> omega
      · omega

theorem Managed.withCounters (managed : mm.Managed) (counters : DirSlot → Int) :
    Managed { mm with dirCounter := counters } :=
  ⟨managed.breaks, managed.used, managed.apart⟩

theorem Managed.exit (managed : mm.Managed) (released : mm.releaseDir pt slot = .ok after) :
    after.Managed := by
  have bounds := heapBounds
  have counted : (mm.uncount pt).Managed := managed.withCounters _
  have outcome := (releaseDir_eq_ok (managed.breaks slot)).mp released
  split at outcome
  · rw [outcome.2]
    refine
      (@Managed.unmap (mm.uncount pt) pt slot counted _ ?_ heapStart ⟨Nat.le_refl _, by omega⟩).1
    intro page member
    exact (mem_exitPages.mp member).1
  · rw [outcome]
    exact counted

theorem Managed.heapBreak (managed : mm.Managed) {result : Mm × Bool}
    (forked : forkPages child father slot mm = .ok result) : HeapBreak mm slot :=
  (managed.breaks slot).resolve_left fun unset => forkPages_ne_ok unset result forked

theorem Managed.fork (managed : mm.Managed) {enough : Bool}
    (forked : forkPages child father slot mm = .ok (after, enough)) : after.Managed := by
  have sizes := memoryMap
  have heap := managed.heapBreak forked
  have kept := (forkPages_bookkept forked).programbreakTable
  have breaks : ∀ other, BreakSet after other := by
    intro other
    have before := managed.breaks other
    rw [BreakSet, HeapBreak] at before ⊢
    rwa [kept]
  cases enough with
  | false =>
      rcases (forkPages_false heap managed.first).mp forked with ⟨-, same⟩
      subst same
      refine managed.of_entries breaks (fun frame _ => rfl) fun pt page _ => ?_
      apply Or.inr ∘ Or.inr
      by_cases own : pt = child
      · subst own
        have table := sharePages_child mm pt father (sharedPages (mm.heapPages slot)) page
        split at table
        · rw [frameOf, userEntry_frame] at table
          have frames := congrArg (fun entry : PageTableEntry => entry.pbaseAddr.toNat) table
          exact ⟨father, frames⟩
        · exact ⟨pt, frameOf_congr table⟩
      · exact ⟨pt, frameOf_congr (congrFun (sharePages_other mm father _ own) page)⟩
  | true =>
      rcases (forkPages_true heap).mp forked with ⟨frames, found, -, -, same⟩
      rcases allocFrames_members found with ⟨-, -, members⟩
      refine managed.of_entries breaks ?_ fun pt page above => ?_
      · rw [same, (forkCopied_rest mm child father slot frames).1]
        exact managed.mark members
      · have table := forkCopied_table mm child father slot frames pt page
        rw [← same] at table
        by_cases fresh : pt = child ∧ page ∈ forkedPages (mm.heapPages slot)
        · rw [if_pos fresh] at table
          have inside := mem_forkedPages.mp fresh.2
          exact .inr (.inl (frameOf_available (allocFrames_getD found (by omega)) table))
        · rw [if_neg fresh] at table
          by_cases window : pt = father ∧ page ∈ windowPages (mm.heapPages slot)
          · rw [if_pos window] at table
            exact .inl (congrArg (fun entry : PageTableEntry => entry.pbaseAddr.toNat) table)
          · rw [if_neg window, if_neg fun low => Nat.not_lt.mpr above low.2] at table
            exact .inr (.inr ⟨pt, frameOf_congr table⟩)

end Mm

/-! ## Runs -/

theorem boot_managed (machine : Machine) : (machine.bootCore 0 1).mm.Managed := by
  have sizes := memoryMap
  have bounds := heapBounds
  refine ⟨fun slot => ?_, fun frame code => ?_, fun pt page above => ?_⟩
  · rw [Mm.BreakSet, Mm.HeapBreak, boot_programbreak]
    split
    · exact .inr ⟨Nat.le_refl _, by omega⟩
    · exact .inl rfl
  · rcases Mm.mem_codeFrames.mp code with ⟨even, above, below⟩
    rw [boot_physMem]
    exact if_pos (.inr ⟨even, by omega⟩)
  · have beyond : machine.initialEntry page = .zero := by
      rw [Machine.initialEntry, if_pos (.inr (by omega))]
    have frame : (machine.firstTable page).pbaseAddr.toNat ∉ Mm.codeFrames := by
      rw [Machine.firstTable]
      split
      · rename_i data
        have number : (Mm.bootEntry true (numPagKernel + 2 * (numPagCode +
            (page - pagLogInitData)))).pbaseAddr.toNat =
              numPagKernel + 2 * (numPagCode + (page - pagLogInitData)) :=
          Mm.userEntry_toNat (by omega)
        rw [number, Mm.mem_codeFrames]
        omega
      · rw [if_neg (by omega), beyond]
        decide +kernel
    rw [Mm.frameOf, boot_table]
    split
    · exact frame
    · rw [beyond]
      decide +kernel

open Processes in
theorem ProcessStep.managed {view after : Processes} {caller : TaskId} {event : Event}
    (step : ProcessStep view caller event after) (typed : event.WellTyped)
    (managed : view.mm.Managed) : after.mm.Managed := by
  have forks : ∀ {child : TaskId} {mm : Mm} {enough : Bool},
      view.forkPages child = .ok (mm, enough) → mm.Managed := by
    intro child mm enough forked
    apply Mm.Managed.fork _ forked
    rw [Mm.allocateDir_eq]
    exact managed.withCounters _
  cases step with
  | keeps event after keeps full =>
      rw [keeps.mm]
      exact ⟨managed.breaks, managed.used, managed.apart⟩
  | noMemory child rest free mm outOfFrames => exact forks outOfFrames
  | forked child rest free mm copied => exact forks copied
  | cloned function stack child rest free => exact managed.withCounters _
  | exited mm freed => exact managed.exit freed
  | moved amount mm result outcome =>
      exact managed.sbrk (Mm.sbrk_effect typed (managed.breaks _) managed.first outcome)

theorem wellTyped_of_mem {machine : Machine} {history : List (Transition SequenceKernel Event)}
    {last : SequenceKernel} (reaches : (checkedZeos machine).Reaches history last)
    {transition : Transition SequenceKernel Event} (member : transition ∈ history) :
    transition.label.WellTyped := by
  rcases reaches with ⟨first, start, run⟩
  exact (run.step_of_mem member).1.1

theorem reachable_managed {machine : Machine} {history : List (Transition SequenceKernel Event)}
    {last : SequenceKernel} (reaches : (checkedZeos machine).Reaches history last) :
    last.core.mm.Managed :=
  @processes_invariant machine history last (fun view => view.mm.Managed) reaches
    (boot_managed machine) fun _ member _ step managed =>
      step.managed (wellTyped_of_mem reaches member) managed

end Zeos
