import Zeos.HeapGrowth

/-! # Shrinking the heap

A call of `sys_sbrk` with a negative increment: the pages that it releases, when
these are the right ones, and that it undoes an earlier call.
-/

namespace Zeos

open Foundation

namespace Mm

variable {mm : Mm} {pt slot : DirSlot}

/-! ## Releasing pages -/

def unmapPages (mm : Mm) (pt : DirSlot) (pages : List Nat) : Mm :=
  { mm with
    physMem := fun frame =>
      if (numPagKernel < frame ∧ frame < totalPages) ∧ frame ∈ pages.map (mm.frameOf pt) then
        .freeFrame
      else mm.physMem frame
    pagusrTable := Function.update mm.pagusrTable pt fun page =>
      if page ∈ pages then .zero else mm.pagusrTable pt page }

theorem unmapPages_table (mm : Mm) (pt : DirSlot) (pages : List Nat) (page : Nat) :
    (mm.unmapPages pt pages).pagusrTable pt page =
      if page ∈ pages then .zero else mm.pagusrTable pt page := by
  simp [unmapPages]

theorem unmapPages_nil (mm : Mm) (pt : DirSlot) : mm.unmapPages pt [] = mm := by
  cases mm with
  | mk physMem pagusrTable dirCounter programbreakTable ram =>
      simp [unmapPages]

theorem freeFrame_eq (mm : Mm) (frame : Nat) :
    mm.freeFrame frame =
      { mm with
        physMem := fun other =>
          if (numPagKernel < other ∧ other < totalPages) ∧ other = frame then .freeFrame
          else mm.physMem other } := by
  unfold freeFrame
  by_cases proper : numPagKernel < frame ∧ frame < totalPages
  · rw [if_pos proper]
    simp only [Mm.mk.injEq, and_true]
    funext other
    by_cases same : other = frame
    · subst same
      simp [proper]
    · simp [same]
  · rw [if_neg proper]
    cases mm with
    | mk physMem pagusrTable dirCounter programbreakTable ram =>
        simp only [Mm.mk.injEq, and_true]
        funext other
        by_cases same : other = frame
        · subst same
          simp [proper]
        · simp [same]

theorem releasePage_unmapPages (mm : Mm) (pt : DirSlot) (pages : List Nat) {page : Nat}
    (inside : page < totalPages) :
    releasePage pt page (mm.unmapPages pt pages) = .ok (mm.unmapPages pt (pages ++ [page])) := by
  rw [releasePage, getFrame, if_pos inside, ok_bind, delSsPag, if_pos inside, unmapPages_table,
    freeFrame_eq]
  apply congrArg Except.ok
  simp only [unmapPages, setEntry, Mm.mk.injEq, and_true]
  constructor
  · funext frame
    by_cases proper : numPagKernel < frame ∧ frame < totalPages
    · have positive : frame ≠ 0 := by omega
      by_cases again : page ∈ pages
      · have listed : mm.frameOf pt page ∈ pages.map (mm.frameOf pt) := List.mem_map_of_mem again
        by_cases here : frame = mm.frameOf pt page
        · subst here
          simp [proper, listed]
        · simp [proper, again, positive, here, PageTableEntry.zero]
      · by_cases here : frame = mm.frameOf pt page
        · subst here
          rw [frameOf] at proper
          simp [proper, again, frameOf]
        · have other : frame ≠ (mm.pagusrTable pt page).pbaseAddr.toNat := here
          simp [proper, again, here, other]
    · simp [proper]
  · funext other number
    by_cases same : other = pt
    · subst same
      by_cases here : number = page <;> simp [here]
    · simp [same]

theorem releaseLoop_eq (mm : Mm) (pt : DirSlot) (page : Nat → Nat) (count : Nat)
    (inside : ∀ i < count, page i < totalPages) :
    countedLoop (fun i => releasePage pt (page i)) 0 count mm =
      .ok (mm.unmapPages pt ((List.range count).map page)) := by
  have loop := @countedLoop_closedForm Fault Mm (fun i => releasePage pt (page i))
    (fun i => mm.unmapPages pt ((List.range i).map page)) 0 count
  simp only [List.range_zero, List.map_nil, unmapPages_nil, Nat.zero_add] at loop
  apply loop
  intro index _ below
  rw [List.range_succ, List.map_append]
  exact releasePage_unmapPages mm pt _ (inside index below)

theorem releaseLoop_outside (mm after : Mm) (pt : DirSlot) (page : Nat → Nat) {count index : Nat}
    (below : index < count) (outside : totalPages ≤ page index) :
    countedLoop (fun i => releasePage pt (page i)) 0 count mm ≠ .ok after := by
  intro finished
  have reached := countedLoop_invariant (fun i _ => i ≤ index) finished (Nat.zero_le index)
    fun i current next _ _ before released => by
      have different : i ≠ index := by
        intro same
        rw [same, releasePage, getFrame, if_neg (Nat.not_lt.mpr outside)] at released
        cases released
      omega
  omega

/-! ## The pages that a call releases -/

/-- The pages from the old break down, and the page of the new end when that is
aligned. -/
def released (last endaddress : Nat) : List Nat :=
  let newPage := max (endaddress / pageSize) pagLogInitHeap
  (List.range (last / pageSize - newPage)).map (fun i => last / pageSize - i) ++
    if endaddress % pageSize = 0 then [newPage] else []

theorem mem_released {last endaddress page : Nat} :
    page ∈ released last endaddress ↔
      max (endaddress / pageSize) pagLogInitHeap < page ∧ page ≤ last / pageSize ∨
        endaddress % pageSize = 0 ∧ page = max (endaddress / pageSize) pagLogInitHeap := by
  simp only [released, List.mem_append, List.mem_map, List.mem_range]
  apply or_congr
  · constructor
    · rintro ⟨i, below, same⟩
      omega
    · rintro ⟨above, below⟩
      exact ⟨last / pageSize - page, by omega, by omega⟩
  · split <;> simp [*]

theorem sbrkShrink_eq {endaddress : Nat} (lower : heapStart ≤ mm.programbreakTable slot)
    (upper : mm.programbreakTable slot < heapLimit)
    (shrinks : endaddress < mm.programbreakTable slot) :
    sbrkShrink pt slot endaddress mm =
      .ok (mm.unmapPages pt (released (mm.programbreakTable slot) endaddress)) := by
  have sizes := memoryMap
  have bounds := heapBounds
  let iniPage := mm.programbreakTable slot / pageSize
  let newPage := max (endaddress / pageSize) pagLogInitHeap
  have iniValue : iniPage = mm.programbreakTable slot / 4096 := rfl
  have newValue : newPage = max (endaddress / 4096) 284 := rfl
  have below : newPage ≤ iniPage := by omega
  have inside : iniPage < totalPages := by omega
  have count : toUnsigned ((iniPage : Int) - newPage) = iniPage - newPage := by
    rw [toUnsigned]
    omega
  have index : ∀ i < iniPage - newPage, toUnsigned ((iniPage : Int) - i) = iniPage - i := by
    intro i small
    rw [toUnsigned]
    omega
  have loop := releaseLoop_eq mm pt (fun i => toUnsigned ((iniPage : Int) - i))
    (iniPage - newPage) fun i small => by
      rw [index i small]
      omega
  have pages :
      (List.range (iniPage - newPage)).map (fun i : Nat => toUnsigned ((iniPage : Int) - i)) =
      (List.range (iniPage - newPage)).map fun i => iniPage - i :=
    List.map_congr_left fun i member => index i (List.mem_range.mp member)
  rw [pages] at loop
  rw [sbrkShrink, count, loop, ok_bind, released]
  by_cases aligned : endaddress % pageSize = 0
  · rw [if_pos aligned, if_pos aligned]
    apply releasePage_unmapPages
    omega
  · rw [if_neg aligned, if_neg aligned, List.append_nil]
    rfl

theorem sbrk_eq_unmapped {increment : Int} (negative : increment < 0)
    (lower : heapStart ≤ mm.programbreakTable slot) (upper : mm.programbreakTable slot < heapLimit)
    (aboveZero : 0 ≤ mm.programbreakTable slot + increment) :
    mm.sbrk pt slot increment =
      .ok ((mm.unmapPages pt (released (mm.programbreakTable slot)
          (mm.programbreakTable slot + increment).toNat)).setBreak slot
          (max heapStart (mm.programbreakTable slot + increment).toNat),
        some (mm.programbreakTable slot)) := by
  have sizes := memoryMap
  have bounds := heapBounds
  have here : mm.endaddress slot increment = (mm.programbreakTable slot + increment).toNat := by
    rw [endaddress, toUnsigned]
    omega
  have shrinks : (mm.programbreakTable slot + increment).toNat < mm.programbreakTable slot := by
    omega
  have clamped : (if (mm.programbreakTable slot + increment).toNat / pageSize < pagLogInitHeap then
      heapStart else (mm.programbreakTable slot + increment).toNat) =
        max heapStart (mm.programbreakTable slot + increment).toNat := by
    have page : pageSize = 4096 := rfl
    rw [page]
    split <;> omega
  rw [sbrk, here, sbrkShrink_eq lower upper shrinks]
  dsimp only
  rw [if_neg fun refused => by omega, if_neg (by omega), if_pos negative, ok_bind, clamped]
  rfl

/-- It runs over the table when the heap is full, and when the new end lies below
address zero. -/
theorem sbrk_ne_ok {increment : Int} (negative : increment < 0) (int : IsInt increment)
    (lower : heapStart ≤ mm.programbreakTable slot) (upper : mm.programbreakTable slot ≤ heapLimit)
    (bad : mm.programbreakTable slot = heapLimit ∨ mm.programbreakTable slot + increment < 0)
    (result : Mm × Option Nat) : mm.sbrk pt slot increment ≠ .ok result := by
  have sizes := memoryMap
  have bounds := heapBounds
  have bounded := int.1
  let iniPage := mm.programbreakTable slot / pageSize
  let newPage := max (mm.endaddress slot increment / pageSize) pagLogInitHeap
  have iniValue : iniPage = mm.programbreakTable slot / 4096 := rfl
  have newValue :
      newPage = max (((mm.programbreakTable slot + increment) % 4294967296).toNat / 4096) 284 := rfl
  have fails : ∀ after, sbrkShrink pt slot (mm.endaddress slot increment) mm ≠ .ok after := by
    intro after finished
    rw [sbrkShrink] at finished
    rcases bind_eq_ok.mp finished with ⟨middle, loop, -⟩
    by_cases full : mm.programbreakTable slot = heapLimit
    · have first : 0 < toUnsigned ((iniPage : Int) - newPage) := by
        rw [toUnsigned]
        omega
      apply releaseLoop_outside mm middle pt (fun i => toUnsigned ((iniPage : Int) - i)) first _
        loop
      rw [toUnsigned]
      omega
    · have many : iniPage + 1 < toUnsigned ((iniPage : Int) - newPage) := by
        rw [toUnsigned]
        omega
      apply releaseLoop_outside mm middle pt (fun i => toUnsigned ((iniPage : Int) - i)) many _ loop
      rw [toUnsigned]
      omega
  intro finished
  rw [sbrk] at finished
  dsimp only at finished
  rw [if_neg fun refused => by omega, if_neg (by omega), if_pos negative] at finished
  rcases bind_eq_ok.mp finished with ⟨middle, shrunk, -⟩
  exact fails middle shrunk

/-! ## Shrinking as described -/

def Removed (before : Mm) (slot : DirSlot) (increment : Int) (page : Nat) : Prop :=
  pagLogInitHeap ≤ page ∧ before.programbreakTable slot + increment ≤ (page * pageSize : Nat) ∧
    page * pageSize < before.programbreakTable slot

/-- The break is moved down, but not below the start of the heap, and exactly the
removed pages are given back. -/
structure Shrinks (before after : Mm) (pt slot : DirSlot) (increment : Int) : Prop where
  moved : (after.programbreakTable slot : Int) =
    max (heapStart : Int) (before.programbreakTable slot + increment)
  present : ∀ page, pagLogInitHeap ≤ page → page < totalPages →
    ((after.pagusrTable pt page).present = true ↔
      page * pageSize < after.programbreakTable slot)
  freed : ∀ page, before.Removed slot increment page →
    after.physMem (before.frameOf pt page) = .freeFrame
  others : ∀ frame < totalPages,
    (∀ page, before.Removed slot increment page → before.frameOf pt page ≠ frame) →
    after.physMem frame = before.physMem frame
  kept : ∀ page, page < pagLogInitHeap ∨ totalPages ≤ page →
    after.pagusrTable pt page = before.pagusrTable pt page

/-- When `sys_sbrk` shrinks a heap as described: the new end does not lie below
address zero, the heap does not fill the table, an end below the start of the heap
is aligned unless the heap is empty, the removed pages do not lie on the first of
all frames or on a frame of the kernel, and the entry of an aligned old break does
not name a frame in use of somebody else. -/
structure ShrinksRight (mm : Mm) (pt slot : DirSlot) (increment : Int) : Prop where
  aboveZero : 0 ≤ mm.programbreakTable slot + increment
  notFull : mm.programbreakTable slot < heapLimit
  aligned : heapStart < mm.programbreakTable slot →
    mm.programbreakTable slot + increment < heapStart →
    (mm.programbreakTable slot + increment) % (pageSize : Int) = 0
  reclaimable : ∀ page, mm.Removed slot increment page → numPagKernel < mm.frameOf pt page
  stale : ∀ page, page * pageSize = mm.programbreakTable slot →
    (heapStart < mm.programbreakTable slot ∨
      (mm.programbreakTable slot + increment) % (pageSize : Int) = 0) →
    numPagKernel < mm.frameOf pt page → mm.frameOf pt page < totalPages →
    mm.physMem (mm.frameOf pt page) = .usedFrame →
    ∃ other, mm.Removed slot increment other ∧ mm.frameOf pt other = mm.frameOf pt page

section Correct

variable {increment : Int}

/-- The pages that the code releases are the removed ones and the one at an aligned
old break. -/
theorem released_removed (negative : increment < 0) (lower : heapStart ≤ mm.programbreakTable slot)
    (aboveZero : 0 ≤ mm.programbreakTable slot + increment) {page : Nat}
    (member : page ∈ released (mm.programbreakTable slot)
      (mm.programbreakTable slot + increment).toNat) :
    pagLogInitHeap ≤ page ∧
      (mm.Removed slot increment page ∨ page * pageSize = mm.programbreakTable slot ∧
        (heapStart < mm.programbreakTable slot ∨
          (mm.programbreakTable slot + increment) % (pageSize : Int) = 0)) := by
  have size : pageSize = 4096 := rfl
  have start : pagLogInitHeap = 284 := rfl
  have bounds := heapBounds
  rw [mem_released] at member
  simp only [Removed, size, start] at *
  omega

theorem removed_released
    (aligned : heapStart < mm.programbreakTable slot →
      mm.programbreakTable slot + increment < heapStart →
      (mm.programbreakTable slot + increment) % (pageSize : Int) = 0) {page : Nat}
    (removed : mm.Removed slot increment page) :
    page ∈ released (mm.programbreakTable slot)
      (mm.programbreakTable slot + increment).toNat := by
  have size : pageSize = 4096 := rfl
  have start : pagLogInitHeap = 284 := rfl
  have bounds := heapBounds
  rw [mem_released]
  simp only [Removed, size, start] at *
  omega

def shrunk (mm : Mm) (pt slot : DirSlot) (increment : Int) : Mm :=
  (mm.unmapPages pt (released (mm.programbreakTable slot)
    (mm.programbreakTable slot + increment).toNat)).setBreak slot
    (max heapStart (mm.programbreakTable slot + increment).toNat)

theorem shrunk_physMem (frame : Nat) :
    (mm.shrunk pt slot increment).physMem frame =
      if (numPagKernel < frame ∧ frame < totalPages) ∧
          frame ∈ (released (mm.programbreakTable slot)
            (mm.programbreakTable slot + increment).toNat).map (mm.frameOf pt) then .freeFrame
      else mm.physMem frame := rfl

theorem shrunk_table (page : Nat) :
    (mm.shrunk pt slot increment).pagusrTable pt page =
      if page ∈ released (mm.programbreakTable slot)
          (mm.programbreakTable slot + increment).toNat then .zero
      else mm.pagusrTable pt page :=
  unmapPages_table mm pt _ page

theorem shrunk_break :
    (mm.shrunk pt slot increment).programbreakTable slot =
      max heapStart (mm.programbreakTable slot + increment).toNat :=
  Function.update_self ..

theorem ShrinksRight.shrinks (heap : HeapInUse mm pt slot) (negative : increment < 0)
    (right : ShrinksRight mm pt slot increment) :
    Shrinks mm (mm.shrunk pt slot increment) pt slot increment := by
  have size : pageSize = 4096 := rfl
  have start : pagLogInitHeap = 284 := rfl
  have pages : totalPages = 1024 := rfl
  have bounds := heapBounds
  have aboveZero := right.aboveZero
  have notFull := right.notFull
  constructor
  · rw [shrunk_break]
    omega
  · intro page above below
    rw [shrunk_table, shrunk_break]
    by_cases member : page ∈ released (mm.programbreakTable slot)
        (mm.programbreakTable slot + increment).toNat
    · have outside := (released_removed negative heap.lower aboveZero member).2
      rw [if_pos member]
      apply iff_of_false Bool.false_ne_true
      simp only [Removed, size, start] at *
      omega
    · rw [if_neg member, heap.present page above below]
      have staying := mt (removed_released right.aligned) member
      simp only [Removed, size, start] at *
      omega
  · intro page removed
    have member := removed_released right.aligned removed
    rw [shrunk_physMem, if_pos]
    exact ⟨⟨right.reclaimable page removed, (heap.inUse page removed.1 removed.2.2).1⟩,
      List.mem_map_of_mem member⟩
  · intro frame small apart
    rw [shrunk_physMem]
    split
    · rename_i freed
      rcases freed with ⟨⟨proper, -⟩, listed⟩
      rcases List.mem_map.mp listed with ⟨page, member, same⟩
      rcases (released_removed negative heap.lower aboveZero member).2 with
        removed | ⟨here, reached⟩
      · exact absurd same (apart page removed)
      · subst same
        cases marked : mm.physMem (mm.frameOf pt page) with
        | freeFrame => rfl
        | usedFrame =>
            rcases right.stale page here reached proper small marked with ⟨other, removed, same⟩
            exact absurd same (apart other removed)
    · rfl
  · intro page outside
    rw [shrunk_table, if_neg]
    intro member
    rcases released_removed negative heap.lower aboveZero member with ⟨above, removed | here⟩
    · have below := removed.2.2
      simp only [size, start, pages] at *
      omega
    · simp only [size, start, pages] at *
      omega

theorem Shrinks.right (heap : HeapInUse mm pt slot) (negative : increment < 0)
    (aboveZero : 0 ≤ mm.programbreakTable slot + increment)
    (notFull : mm.programbreakTable slot < heapLimit)
    (shrinks : Shrinks mm (mm.shrunk pt slot increment) pt slot increment) :
    ShrinksRight mm pt slot increment := by
  have size : pageSize = 4096 := rfl
  have start : pagLogInitHeap = 284 := rfl
  have pages : totalPages = 1024 := rfl
  have bounds := heapBounds
  have aligned : heapStart < mm.programbreakTable slot →
      mm.programbreakTable slot + increment < heapStart →
      (mm.programbreakTable slot + increment) % (pageSize : Int) = 0 := by
    intro nonempty below
    by_contra unaligned
    have spared : pagLogInitHeap ∉ released (mm.programbreakTable slot)
        (mm.programbreakTable slot + increment).toNat := by
      rw [mem_released]
      simp only [size, start] at *
      omega
    have still := shrinks.present pagLogInitHeap (le_refl _) (by decide)
    rw [shrunk_table, if_neg spared, heap.present _ (le_refl _) (by decide), shrunk_break] at still
    simp only [size, start] at *
    omega
  refine ⟨aboveZero, notFull, aligned, ?_, ?_⟩
  · intro page removed
    by_contra kernelFrame
    have freed := shrinks.freed page removed
    rw [shrunk_physMem, if_neg fun proper => kernelFrame proper.1.1,
      (heap.inUse page removed.1 removed.2.2).2] at freed
    cases freed
  · intro page here reached proper small used
    by_contra missing
    have member : page ∈ released (mm.programbreakTable slot)
        (mm.programbreakTable slot + increment).toNat := by
      rw [mem_released]
      have lower := heap.lower
      simp only [size, start] at *
      omega
    have same := shrinks.others (mm.frameOf pt page) small fun other removed equal =>
      missing ⟨other, removed, equal⟩
    rw [shrunk_physMem, if_pos ⟨⟨proper, small⟩, List.mem_map_of_mem member⟩, used] at same
    cases same

end Correct

/-! ## Undoing growth -/

section Undoing

variable {after : Mm} {amount : Nat} {frame : Nat → Nat}

theorem Grows.released_iff (heap : HeapFromPool mm pt slot)
    (grows : Grows mm after pt slot amount frame) (positive : 0 < amount) :
    (∀ page, mm.Added slot amount page → page ∈ released (after.programbreakTable slot)
      (after.programbreakTable slot + -(amount : Int)).toNat) ∧
    ∀ page ∈ released (after.programbreakTable slot)
      (after.programbreakTable slot + -(amount : Int)).toNat,
      mm.Added slot amount page ∨ page * pageSize = mm.programbreakTable slot + amount := by
  have bounds := heapBounds
  have moved := grows.break_eq
  have lower := heap.lower
  have grown := grows.heapFromPool heap
  have start : heapStart = pagLogInitHeap * pageSize := rfl
  constructor
  · intro page added
    apply removed_released
    · intro _ below
      omega
    · rcases added with ⟨above, below⟩
      have heapPage : pagLogInitHeap ≤ page := by
        apply Nat.le_of_mul_le_mul_right (c := pageSize) _ (by decide)
        omega
      refine ⟨heapPage, ?_, ?_⟩ <;> omega
  · intro page member
    rcases (released_removed (by omega) grown.lower (by omega) member).2 with removed | ⟨here, -⟩
    · apply Or.inl
      rcases removed with ⟨-, above, below⟩
      constructor <;> omega
    · exact .inr (here.trans moved)

def ClearedBehind (mm : Mm) (pt slot : DirSlot) : Prop :=
  ∀ page, page < totalPages → mm.programbreakTable slot ≤ page * pageSize →
    mm.pagusrTable pt page = .zero

theorem Grows.bare (cleared : mm.ClearedBehind pt slot)
    (grows : Grows mm after pt slot amount frame)
    (notFull : after.programbreakTable slot < heapLimit) {page : Nat}
    (here : page * pageSize = mm.programbreakTable slot + amount) :
    after.pagusrTable pt page = .zero := by
  have size : pageSize = 4096 := rfl
  have pages : totalPages = 1024 := rfl
  have bounds := heapBounds
  have moved := grows.break_eq
  rw [grows.kept page fun added => by have below := added.2; omega]
  apply cleared page
  · simp only [size, pages] at *
    omega
  · omega

theorem Grows.shrunk_marks (heap : HeapFromPool mm pt slot) (cleared : mm.ClearedBehind pt slot)
    (grows : Grows mm after pt slot amount frame) (positive : 0 < amount)
    (notFull : after.programbreakTable slot < heapLimit) :
    (after.shrunk pt slot (-(amount : Int))).physMem = mm.physMem := by
  rcases grows.released_iff heap positive with ⟨complete, sound⟩
  funext other
  rw [shrunk_physMem]
  by_cases taken : ∃ page, mm.Added slot amount page ∧ frame page = other
  · rcases taken with ⟨page, added, same⟩
    rcases mem_available.mp (grows.wasFree page added) with ⟨small, reached, -, free⟩
    have different : frame page ≠ numPagKernel := by
      intro equal
      rw [equal, heap.first] at free
      cases free
    subst same
    rw [if_pos, free]
    refine ⟨⟨by omega, small⟩, ?_⟩
    rw [← grows.frameOf_added added]
    exact List.mem_map_of_mem (complete page added)
  · have unmarked := grows.marks other fun page added same => taken ⟨page, added, same⟩
    rw [if_neg, unmarked]
    rintro ⟨⟨proper, small⟩, listed⟩
    rcases List.mem_map.mp listed with ⟨page, member, same⟩
    rcases sound page member with added | here
    · apply taken
      refine ⟨page, added, ?_⟩
      rw [← same]
      exact (grows.frameOf_added added).symm
    · rw [frameOf, grows.bare cleared notFull here] at same
      have zero : other = 0 := same.symm
      omega

theorem Grows.shrunk_entries (heap : HeapFromPool mm pt slot) (cleared : mm.ClearedBehind pt slot)
    (grows : Grows mm after pt slot amount frame) (positive : 0 < amount)
    (notFull : after.programbreakTable slot < heapLimit) :
    (after.shrunk pt slot (-(amount : Int))).pagusrTable pt = mm.pagusrTable pt := by
  rcases grows.released_iff heap positive with ⟨complete, sound⟩
  funext page
  rw [shrunk_table]
  by_cases member : page ∈ released (after.programbreakTable slot)
      (after.programbreakTable slot + -(amount : Int)).toNat
  · rw [if_pos member]
    rcases sound page member with added | here
    · exact (cleared page (grows.inside page added) added.1).symm
    · rw [← grows.bare cleared notFull here]
      apply grows.kept
      intro added
      have below := added.2
      omega
  · rw [if_neg member]
    exact grows.kept page (mt (complete page) member)

theorem Grows.shrunk_eq (heap : HeapFromPool mm pt slot) (cleared : mm.ClearedBehind pt slot)
    (grows : Grows mm after pt slot amount frame) (positive : 0 < amount)
    (notFull : after.programbreakTable slot < heapLimit) :
    after.shrunk pt slot (-(amount : Int)) = mm := by
  have bounds := heapBounds
  have moved := grows.break_eq
  have lower := heap.lower
  have physMem := grows.shrunk_marks heap cleared positive notFull
  have breaks : (after.shrunk pt slot (-(amount : Int))).programbreakTable =
      mm.programbreakTable := by
    funext other
    by_cases same : other = slot
    · subst same
      rw [shrunk_break]
      omega
    · have kept : after.programbreakTable other = mm.programbreakTable other := by
        rw [grows.rest]
        exact Function.update_of_ne same _ _
      rw [← kept]
      exact Function.update_of_ne same _ _
  have tables : (after.shrunk pt slot (-(amount : Int))).pagusrTable = mm.pagusrTable := by
    funext other
    by_cases same : other = pt
    · subst same
      exact grows.shrunk_entries heap cleared positive notFull
    · have kept : after.pagusrTable other = mm.pagusrTable other := by
        rw [grows.rest]
        exact Function.update_of_ne same _ _
      rw [← kept]
      exact Function.update_of_ne same _ _
  have counters : after.dirCounter = mm.dirCounter ∧ after.ram = mm.ram := by
    rw [grows.rest]
    exact ⟨rfl, rfl⟩
  generalize shrunken : after.shrunk pt slot (-(amount : Int)) = result at *
  have rest : result.dirCounter = after.dirCounter ∧ result.ram = after.ram := by
    rw [← shrunken]
    exact ⟨rfl, rfl⟩
  cases result
  cases mm
  simp only [Mm.mk.injEq]
  exact ⟨physMem, tables, rest.1.trans counters.1, breaks, rest.2.trans counters.2⟩

end Undoing

end Mm

/-! ## The system call -/

open Kernel

namespace Kernel

def HeapInUse (kernel : PointerKernel) : Prop :=
  kernel.core.mm.HeapInUse kernel.currentTask.dirPagesBaseAddr
    kernel.currentTask.posInDirCounter

end Kernel

section Calls

variable {kernel : PointerKernel} {increment : Int}

theorem sysSbrk_eq_shrunk (negative : increment < 0) (lower : heapStart ≤ kernel.programbreak)
    (upper : kernel.programbreak < heapLimit) (aboveZero : 0 ≤ kernel.programbreak + increment) :
    kernel.sysSbrk increment =
      .ok (kernel.withMm (kernel.core.mm.shrunk kernel.currentTask.dirPagesBaseAddr
        kernel.currentTask.posInDirCounter increment), kernel.programbreak) := by
  rw [sysSbrk, Mm.sbrk_eq_unmapped negative lower upper aboveZero]
  rfl

/-- A negative increment shrinks the heap as described exactly under the condition. -/
theorem sbrkShrinks (heap : kernel.HeapInUse) (negative : increment < 0) (int : IsInt increment) :
    (∃ mm, kernel.sysSbrk increment = .ok (kernel.withMm mm, kernel.programbreak) ∧
      Mm.Shrinks kernel.core.mm mm kernel.currentTask.dirPagesBaseAddr
        kernel.currentTask.posInDirCounter increment) ↔
      Mm.ShrinksRight kernel.core.mm kernel.currentTask.dirPagesBaseAddr
        kernel.currentTask.posInDirCounter increment := by
  constructor
  · rintro ⟨mm, finished, shrinks⟩
    have good : ¬(kernel.programbreak = heapLimit ∨ kernel.programbreak + increment < 0) := by
      intro bad
      rw [sysSbrk] at finished
      rcases bind_eq_ok.mp finished with ⟨result, called, -⟩
      exact Mm.sbrk_ne_ok negative int heap.lower heap.upper bad result called
    rw [not_or, Int.not_lt] at good
    have notFull : kernel.programbreak < heapLimit := Nat.lt_of_le_of_ne heap.upper good.1
    rw [sysSbrk_eq_shrunk negative heap.lower notFull good.2] at finished
    have same := congrArg (fun result : Except Fault (PointerKernel × Int) =>
      result.toOption.map fun outcome => outcome.1.core.mm) finished
    cases Option.some.inj same
    exact shrinks.right heap negative good.2 notFull
  · intro right
    have finished := sysSbrk_eq_shrunk negative heap.lower right.notFull right.aboveZero
    exact ⟨_, finished, right.shrinks heap negative⟩

/-- The end lies one byte below the start of the heap, and its first page stays. -/
theorem sbrkShrinks_staysPresent :
    ¬∀ (kernel : PointerKernel) (increment : Int), kernel.HeapInUse → increment < 0 →
      IsInt increment →
      ∃ mm, kernel.sysSbrk increment = .ok (kernel.withMm mm, kernel.programbreak) ∧
        Mm.Shrinks kernel.core.mm mm kernel.currentTask.dirPagesBaseAddr
          kernel.currentTask.posInDirCounter increment := by
  intro always
  have heap := withSampleHeap_heapFromPool.toHeapInUse
  rcases always withSampleHeap (-5001) heap (by decide) (by constructor <;> decide) with
    ⟨mm, finished, shrinks⟩
  have bounds := heapBounds
  have last := withSampleHeap_programbreak
  have negative : (-5001 : Int) < 0 := by decide
  have aboveZero : 0 ≤ (withSampleHeap.programbreak : Int) + -5001 := by omega
  rw [sysSbrk_eq_shrunk negative heap.lower (by omega) aboveZero] at finished
  have same := congrArg (fun result : Except Fault (PointerKernel × Int) =>
    result.toOption.map fun outcome => outcome.1.core.mm) finished
  cases Option.some.inj same
  have unaligned :=
    (shrinks.right heap negative aboveZero (by rw [programbreak] at last; omega)).aligned
  rw [← programbreak, last] at unaligned
  exact absurd (unaligned (by decide) (by decide)) (by decide)

theorem sbrkShrinks_all : withSampleHeap.HeapInUse ∧
    ∃ mm, withSampleHeap.sysSbrk (-5000) =
        .ok (withSampleHeap.withMm mm, withSampleHeap.programbreak) ∧
      Mm.Shrinks withSampleHeap.core.mm mm withSampleHeap.currentTask.dirPagesBaseAddr
        withSampleHeap.currentTask.posInDirCounter (-5000) := by
  have heap := withSampleHeap_heapFromPool.toHeapInUse
  refine ⟨heap, (sbrkShrinks heap (by decide) (by constructor <;> decide)).mpr ?_⟩
  constructor
  · change (0 : Int) ≤ ((heapStart + 5000 : Nat) : Int) + -5000
    decide
  · change heapStart + 5000 < heapLimit
    decide
  · intro _ below
    change ((heapStart + 5000 : Nat) : Int) + -5000 < heapStart at below
    exact absurd below (by decide)
  · intro page removed
    rcases Mm.sampleHeap_page removed.1 removed.2.2 with ⟨-, frame⟩ | ⟨-, frame⟩
    · exact frame ▸ (by decide : numPagKernel < 258)
    · exact frame ▸ (by decide : numPagKernel < 260)
  · intro page here
    change page * pageSize = heapStart + 5000 at here
    have bounds := heapBounds
    rw [pageSize] at here
    omega

/-- A call that grew the heap is undone by the call with the opposite increment. -/
theorem sbrkUndoes (heap : kernel.HeapFromPool)
    (cleared : ∀ page, page < totalPages → kernel.programbreak ≤ page * pageSize →
      kernel.core.mm.pagusrTable kernel.currentTask.dirPagesBaseAddr page = .zero)
    (positive : 0 < increment) (int : IsInt increment) {grown : PointerKernel} {result : Int}
    (succeeds : SbrkSucceeds kernel increment grown result) :
    ∃ last, grown.sysSbrk (-increment) = .ok (kernel, last) := by
  rcases (sbrkSucceeds_iff heap (Int.le_of_lt positive) int).mp succeeds with
    ⟨-, -, mm, extension, final⟩
  rcases succeeds.grown heap (Int.le_of_lt positive) int with ⟨heapGrown, moved, sameTask⟩
  rcases Mm.extended_grows heap extension with ⟨frame, grows⟩
  have bounds := heapBounds
  have amount : (increment.toNat : Int) = increment := Int.toNat_of_nonneg (Int.le_of_lt positive)
  have lower := heap.lower
  -- The pool has fewer frames than the table has pages.
  have notFull : grown.programbreak < heapLimit := by
    have counted := heapGrown.card_le
    have start : pagLogInitHeap = 284 := rfl
    have limit : heapLimit = 1024 * pageSize := rfl
    by_contra full
    have page : 1023 < pagesBelow grown.programbreak := by
      rw [lt_pagesBelow]
      have size : pageSize = 4096 := rfl
      omega
    rw [start, ← programbreak] at counted
    omega
  refine ⟨grown.programbreak, ?_⟩
  have there : mm.programbreakTable kernel.currentTask.posInDirCounter < heapLimit := by
    rw [grows.break_eq]
    rw [moved] at notFull
    exact notFull
  have undone := grows.shrunk_eq heap cleared (by omega) there
  rw [amount] at undone
  have back := sysSbrk_eq_shrunk (Int.neg_neg_of_pos positive) heapGrown.lower notFull (by omega)
  have sameMm : grown.core.mm = mm := by
    rw [final]
    rfl
  rw [sameTask, sameMm, undone, final] at back
  rw [final, back]
  rfl

theorem sbrkUndoes_page : ∃ grown result last, SbrkSucceeds withSampleHeap 4096 grown result ∧
    grown.sysSbrk (-4096) = .ok (withSampleHeap, last) := by
  rcases @sampleHeap_succeeds 4096 (by decide) (by constructor <;> decide) (by decide)
    (by decide +kernel) with ⟨grown, result, succeeds⟩
  have cleared : ∀ page, page < totalPages → withSampleHeap.programbreak ≤ page * pageSize →
      withSampleHeap.core.mm.pagusrTable withSampleHeap.currentTask.dirPagesBaseAddr page =
        .zero := by
    intro page _ above
    have bounds := heapBounds
    rw [withSampleHeap_programbreak, pageSize] at above
    exact (if_neg (by omega)).trans (if_neg (by omega))
  rcases sbrkUndoes withSampleHeap_heapFromPool cleared (by decide) (by constructor <;> decide)
    succeeds with ⟨last, undone⟩
  exact ⟨grown, result, last, succeeds, undone⟩

end Calls

end Zeos
