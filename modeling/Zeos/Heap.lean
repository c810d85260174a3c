import Zeos.FramePool

/-! # The heap of a process

What the heap of a process looks like between two calls of `sys_sbrk`, and the
groups of frames and table entries that a call works on.
-/

namespace Zeos

open Foundation

/-- The number of pages that begin below an address. -/
def pagesBelow (address : Nat) : Nat := (address + pageSize - 1) / pageSize

theorem lt_pagesBelow {page address : Nat} : page < pagesBelow address ↔
    page * pageSize < address := by
  have sizes := memoryMap
  simp only [pagesBelow, sizes]
  omega

theorem pagesBelow_mono {address higher : Nat} (le : address ≤ higher) :
    pagesBelow address ≤ pagesBelow higher := by
  apply Nat.div_le_div_right
  omega

namespace Mm

/-! ## Groups of frames -/

theorem getD_mem {frames : List Nat} {index : Nat} (below : index < frames.length) :
    frames.getD index 0 ∈ frames := by
  rw [List.getD_eq_getElem _ _ below]
  exact List.getElem_mem below

theorem getD_inj {frames : List Nat} (nodup : frames.Nodup) {index other : Nat}
    (below : index < frames.length) (inside : other < frames.length)
    (same : frames.getD index 0 = frames.getD other 0) : index = other := by
  rw [List.getD_eq_getElem _ _ below, List.getD_eq_getElem _ _ inside] at same
  exact (List.Nodup.getElem_inj_iff nodup).mp same

def mark (mm : Mm) (frames : List Nat) (mark : FrameMark) : Mm :=
  { mm with physMem := fun frame => if frame ∈ frames then mark else mm.physMem frame }

@[simp] theorem mark_nil (mm : Mm) (mark : FrameMark) : mm.mark [] mark = mm := by
  simp [Mm.mark]

theorem mark_append (mm : Mm) (first second : List Nat) (mark : FrameMark) :
    (mm.mark first mark).mark second mark = mm.mark (first ++ second) mark := by
  simp only [Mm.mark, List.mem_append, Mm.mk.injEq, and_true]
  funext frame
  by_cases one : frame ∈ first <;> simp [one]

theorem mark_singleton (mm : Mm) (frame : Nat) (mark : FrameMark) :
    mm.mark [frame] mark = { mm with physMem := Function.update mm.physMem frame mark } := by
  simp only [Mm.mark, List.mem_singleton, Mm.mk.injEq, and_true]
  funext other
  rw [Function.update_apply]

theorem mark_mark {mm : Mm} {frames : List Nat} {before other : FrameMark}
    (marked : ∀ frame ∈ frames, mm.physMem frame = before) :
    (mm.mark frames other).mark frames before = mm := by
  cases mm with
  | mk physMem pagusrTable dirCounter programbreakTable ram =>
      simp only [Mm.mark, Mm.mk.injEq, and_true]
      funext frame
      by_cases member : frame ∈ frames
      · rw [if_pos member]
        exact (marked frame member).symm
      · simp [member]

theorem allocFrame_mark {mm after : Mm} {frame : Nat}
    (found : mm.allocFrame = (after, some frame)) :
    after = mm.mark [frame] .usedFrame := by
  rw [mark_singleton]
  exact (allocFrame_some found).2

theorem freeFrames_mark {mm : Mm} {frames : List Nat}
    (proper : ∀ frame ∈ frames, numPagKernel < frame ∧ frame < totalPages) :
    mm.freeFrames frames = mm.mark frames .freeFrame := by
  induction frames generalizing mm with
  | nil => exact (mark_nil mm _).symm
  | cons frame frames induction =>
      have first : mm.freeFrame frame = mm.mark [frame] .freeFrame := by
        rw [mark_singleton, freeFrame, if_pos (proper frame (List.mem_cons_self ..))]
      have rest := @induction (mm.freeFrame frame) fun other member =>
        proper other (List.mem_cons_of_mem frame member)
      rw [first, mark_append] at rest
      exact (congrArg (fun mm => Mm.freeFrames mm frames) first).trans rest

theorem available_mark (mm : Mm) (frames : List Nat) :
    (mm.mark frames .usedFrame).available = mm.available.filter fun frame => frame ∉ frames := by
  ext frame
  by_cases member : frame ∈ frames <;> simp [mem_available, mark, member]

/-- What a successful allocation of a group has done: fresh frames follow those
that were there. -/
theorem allocFrames_some {count : Nat} {mm after : Mm} {allocated frames : List Nat}
    (found : allocFrames count mm allocated = (after, some frames)) :
    ∃ fresh, frames = allocated ++ fresh ∧ fresh.length = count ∧ fresh.Nodup ∧
      (∀ frame ∈ fresh, frame ∈ mm.available) ∧ after = mm.mark fresh .usedFrame := by
  induction count generalizing mm allocated with
  | zero =>
      cases found
      exact ⟨[], by simp⟩
  | succ count induction =>
      unfold allocFrames at found
      split at found
      · rename_i middle frame first
        rcases allocFrame_some first with ⟨member, -⟩
        have marked := allocFrame_mark first
        rcases induction found with ⟨fresh, appended, length, nodup, members, final⟩
        rw [marked, available_mark] at members
        have different : frame ∉ fresh := by
          intro again
          simpa using (Finset.mem_filter.mp (members frame again)).2
        refine ⟨frame :: fresh, ?_, ?_, List.nodup_cons.mpr ⟨different, nodup⟩, ?_, ?_⟩
        · rw [appended, List.append_assoc]
          rfl
        · rw [List.length_cons, length]
        · intro other listed
          rcases List.mem_cons.mp listed with same | later
          · exact same ▸ member
          · exact (Finset.mem_filter.mp (members other later)).1
        · rw [final, marked, mark_append]
          rfl
      · cases found

theorem allocFrames_lowest {count : Nat} {mm after : Mm} {allocated frames : List Nat}
    (found : allocFrames count mm allocated = (after, some frames)) :
    ∃ fresh, frames = allocated ++ fresh ∧ fresh.toFinset = lowest mm.available count := by
  induction count generalizing mm allocated with
  | zero =>
      cases found
      exact ⟨[], (List.append_nil _).symm, (lowest_zero _).symm⟩
  | succ count induction =>
      unfold allocFrames at found
      split at found
      · rename_i middle frame first
        rcases induction found with ⟨fresh, appended, members⟩
        refine ⟨frame :: fresh, ?_, ?_⟩
        · rw [appended, List.append_assoc]
          rfl
        · rw [(allocFrame_some first).2, available_allocated] at members
          rw [List.toFinset_cons, members, lowest_succ (allocFrame_least first)]
      · cases found

theorem allocFrames_none {count : Nat} {mm after : Mm} {allocated : List Nat}
    (missing : allocFrames count (mm.mark allocated .usedFrame) allocated = (after, none))
    (free : ∀ frame ∈ allocated, frame ∈ mm.available)
    (first : mm.physMem numPagKernel = .usedFrame) : after = mm := by
  induction count generalizing allocated with
  | zero => cases missing
  | succ count induction =>
      unfold allocFrames at missing
      split at missing
      · rename_i middle frame found
        have member := (allocFrame_some found).1
        rw [allocFrame_mark found, mark_append] at missing
        apply induction missing
        intro other listed
        rcases List.mem_append.mp listed with earlier | here
        · exact free other earlier
        · rw [available_mark] at member
          rw [List.mem_singleton.mp here]
          exact (Finset.mem_filter.mp member).1
      · rename_i middle failed
        rw [(allocFrame_none failed).2] at missing
        cases missing
        rw [freeFrames_mark]
        · exact mark_mark fun frame listed => (mem_available.mp (free frame listed)).2.2.2
        · intro frame listed
          rcases mem_available.mp (free frame listed) with ⟨below, above, -, marked⟩
          have different : frame ≠ numPagKernel := by
            intro same
            rw [same, first] at marked
            cases marked
          omega

theorem allocFrames_add (first second : Nat) (mm : Mm) (allocated : List Nat) :
    allocFrames (first + second) mm allocated =
      match allocFrames first mm allocated with
      | (middle, some frames) => allocFrames second middle frames
      | (middle, none) => (middle, none) := by
  induction first generalizing mm allocated with
  | zero => rw [Nat.zero_add, allocFrames]
  | succ first induction =>
      rw [Nat.succ_add, allocFrames, allocFrames]
      cases mm.allocFrame with
      | mk middle result =>
          cases result with
          | none => rfl
          | some frame => exact induction middle _

theorem allocFrames_append {count : Nat} {mm after : Mm} {fresh : List Nat}
    (found : allocFrames count mm [] = (after, some fresh)) (allocated : List Nat) :
    allocFrames count mm allocated = (after, some (allocated ++ fresh)) := by
  have carried : ∀ {count mm after fresh} {earlier : List Nat},
      allocFrames count mm earlier = (after, some fresh) →
      allocFrames count mm (allocated ++ earlier) = (after, some (allocated ++ fresh)) := by
    intro count
    induction count with
    | zero =>
        intro mm after fresh earlier found
        cases found
        rfl
    | succ count induction =>
        intro mm after fresh earlier found
        unfold allocFrames at found ⊢
        split at found
        · rw [List.append_assoc]
          exact induction found
        · cases found
  simpa using carried found

def withTables (mm tables : Mm) : Mm :=
  { mm with
    pagusrTable := tables.pagusrTable
    programbreakTable := tables.programbreakTable }

theorem allocFrames_withTables (count : Nat) (mm tables : Mm) (allocated : List Nat) :
    allocFrames count (mm.withTables tables) allocated =
      ((allocFrames count mm allocated).1.withTables tables,
        (allocFrames count mm allocated).2) := by
  have one : ∀ mm : Mm, (mm.withTables tables).allocFrame =
      (mm.allocFrame.1.withTables tables, mm.allocFrame.2) := by
    intro mm
    have scan : (mm.withTables tables).physMem = mm.physMem := rfl
    unfold allocFrame
    rw [scan]
    cases allocScan mm.physMem totalPages numPagKernel <;> rfl
  have back : ∀ (frames : List Nat) (mm : Mm),
      (mm.withTables tables).freeFrames frames = (mm.freeFrames frames).withTables tables := by
    intro frames
    induction frames with
    | nil => exact fun _ => rfl
    | cons frame frames induction =>
        intro mm
        have first : (mm.withTables tables).freeFrame frame =
            (mm.freeFrame frame).withTables tables := by
          unfold freeFrame
          split <;> rfl
        exact (congrArg (fun mm => Mm.freeFrames mm frames) first).trans
          (induction (mm.freeFrame frame))
  induction count generalizing mm allocated with
  | zero => rfl
  | succ count induction =>
      rw [allocFrames, allocFrames, one]
      cases mm.allocFrame with
      | mk middle result =>
          cases result with
          | none => exact Prod.ext (back allocated middle) rfl
          | some frame => exact induction middle _

/-! ## Runs of pages -/

/-- Consecutive pages from `start` on get these frames. -/
def mapPages (mm : Mm) (pt : DirSlot) (start : Nat) (frames : List Nat) : Mm :=
  { mm with
    pagusrTable := Function.update mm.pagusrTable pt fun page =>
      if start ≤ page ∧ page < start + frames.length then userEntry (frames.getD (page - start) 0)
      else mm.pagusrTable pt page }

theorem mapPages_table (mm : Mm) (pt : DirSlot) (start : Nat) (frames : List Nat) (page : Nat) :
    (mm.mapPages pt start frames).pagusrTable pt page =
      if start ≤ page ∧ page < start + frames.length then userEntry (frames.getD (page - start) 0)
      else mm.pagusrTable pt page := by
  simp [mapPages]

theorem mapPages_nil (mm : Mm) (pt : DirSlot) (start : Nat) : mm.mapPages pt start [] = mm := by
  cases mm with
  | mk physMem pagusrTable dirCounter programbreakTable ram =>
      simp only [mapPages, Mm.mk.injEq, true_and, and_true]
      funext other page
      by_cases same : other = pt
      · subst same
        simp
      · simp [same]

theorem mapPages_snoc (mm : Mm) (pt : DirSlot) (start : Nat) (frames : List Nat) (frame : Nat) :
    (mm.mapPages pt start frames).setEntry pt (start + frames.length) (userEntry frame) =
      mm.mapPages pt start (frames ++ [frame]) := by
  simp only [mapPages, setEntry, Mm.mk.injEq, true_and, and_true]
  funext other page
  by_cases same : other = pt
  · subst same
    simp only [Function.update_self, Function.update_apply, List.length_append,
      List.length_singleton]
    by_cases last : page = start + frames.length
    · subst last
      simp [List.getD_eq_getElem?_getD]
    · by_cases inside : start ≤ page ∧ page < start + frames.length
      · have position : page - start < frames.length := by omega
        rw [if_neg last, if_pos inside, if_pos (by omega)]
        rw [List.getD_eq_getElem?_getD, List.getD_eq_getElem?_getD,
          List.getElem?_append_left position]
      · rw [if_neg last, if_neg inside, if_neg (by omega)]
  · simp [same]

theorem mapPages_append (mm : Mm) (pt : DirSlot) (start : Nat) (first second : List Nat) :
    (mm.mapPages pt start first).mapPages pt (start + first.length) second =
      mm.mapPages pt start (first ++ second) := by
  induction second using List.reverseRecOn with
  | nil => rw [mapPages_nil, List.append_nil]
  | append_singleton frames frame induction =>
      rw [← mapPages_snoc, induction, ← List.append_assoc, ← mapPages_snoc, List.length_append,
        Nat.add_assoc]

theorem mapLoop_eq (mm : Mm) (pt : DirSlot) (start : Nat) (frames : List Nat)
    (inside : start + frames.length ≤ totalPages) :
    countedLoop (fun i mm => mm.setSsPag pt (start + i) (frames.getD i 0)) 0 frames.length mm =
      .ok (mm.mapPages pt start frames) := by
  have loop := @countedLoop_closedForm Fault Mm
    (fun i mm => mm.setSsPag pt (start + i) (frames.getD i 0))
    (fun i => mm.mapPages pt start (frames.take i)) 0 frames.length
  simp only [List.take_zero, mapPages_nil, Nat.zero_add, List.take_length] at loop
  apply loop
  intro index _ below
  have taken : frames.take (index + 1) = frames.take index ++ [frames.getD index 0] := by
    rw [List.getD_eq_getElem _ _ below]
    exact List.take_succ_eq_append_getElem below
  have length : (frames.take index).length = index := by
    rw [List.length_take]
    omega
  have written := mapPages_snoc mm pt start (frames.take index) (frames.getD index 0)
  rw [length] at written
  rw [taken, setSsPag, if_pos (by omega), written]

/-! ## The state of a heap -/

/-- The frame behind a page. -/
def frameOf (mm : Mm) (pt : DirSlot) (page : Nat) : Nat := (mm.pagusrTable pt page).pbaseAddr.toNat

/-- The break is between the heap's limits, and the present heap pages are those
below it, on frames in use of their own. -/
structure HeapInUse (mm : Mm) (pt slot : DirSlot) : Prop where
  lower : heapStart ≤ mm.programbreakTable slot
  upper : mm.programbreakTable slot ≤ heapLimit
  present : ∀ page, pagLogInitHeap ≤ page → page < totalPages →
    ((mm.pagusrTable pt page).present = true ↔ page * pageSize < mm.programbreakTable slot)
  inUse : ∀ page, pagLogInitHeap ≤ page → page * pageSize < mm.programbreakTable slot →
    mm.frameOf pt page < totalPages ∧ mm.physMem (mm.frameOf pt page) = .usedFrame
  distinct : ∀ page other, pagLogInitHeap ≤ page → page * pageSize < mm.programbreakTable slot →
    pagLogInitHeap ≤ other → other * pageSize < mm.programbreakTable slot →
    mm.frameOf pt page = mm.frameOf pt other → page = other

/-- The frames of the heap have been handed out by `alloc_frame`, and the first of
all frames is in use. -/
structure HeapFromPool (mm : Mm) (pt slot : DirSlot) : Prop extends HeapInUse mm pt slot where
  pooled : ∀ page, pagLogInitHeap ≤ page → page * pageSize < mm.programbreakTable slot →
    mm.frameOf pt page ∈ poolFrames
  first : mm.physMem numPagKernel = .usedFrame

variable {mm : Mm} {pt slot : DirSlot}

/-- The pages of the heap and the frames that are to be had do not outnumber the
frames of the pool. -/
theorem HeapFromPool.card_le (heap : HeapFromPool mm pt slot) :
    pagesBelow (mm.programbreakTable slot) + mm.available.card ≤ pagLogInitHeap + 384 := by
  let pages := Finset.Ico pagLogInitHeap (pagesBelow (mm.programbreakTable slot))
  have within : ∀ page ∈ pages, pagLogInitHeap ≤ page ∧
      page * pageSize < mm.programbreakTable slot := by
    intro page member
    rcases Finset.mem_Ico.mp member with ⟨above, below⟩
    exact ⟨above, lt_pagesBelow.mp below⟩
  have counted : (pages.image (mm.frameOf pt)).card = pages.card := by
    apply Finset.card_image_of_injOn
    intro page member other again same
    rcases within page member with ⟨above, below⟩
    rcases within other again with ⟨above', below'⟩
    exact heap.distinct page other above below above' below' same
  have apart : Disjoint (pages.image (mm.frameOf pt)) mm.available := by
    rw [Finset.disjoint_left]
    intro frame listed available
    rcases Finset.mem_image.mp listed with ⟨page, member, same⟩
    rcases within page member with ⟨above, below⟩
    have used := (heap.inUse page above below).2
    rw [same, (mem_available.mp available).2.2.2] at used
    cases used
  have pool : pages.image (mm.frameOf pt) ∪ mm.available ⊆ poolFrames := by
    apply Finset.union_subset
    · intro frame listed
      rcases Finset.mem_image.mp listed with ⟨page, member, same⟩
      rcases within page member with ⟨above, below⟩
      exact same ▸ heap.pooled page above below
    · intro frame available
      rcases mem_available.mp available with ⟨below, above, even, -⟩
      exact mem_poolFrames.mpr ⟨below, above, even⟩
  have bound := Finset.card_le_card pool
  have whole : poolFrames.card = 384 := by decide +kernel
  rw [Finset.card_union_of_disjoint apart, counted, Nat.card_Ico, whole] at bound
  omega

def sampleHeap : Mm where
  physMem frame :=
    if frame ≤ numPagKernel ∨ frame = 258 ∨ frame = 260 then .usedFrame else .freeFrame
  pagusrTable _ page :=
    if page = 284 then userEntry 258 else if page = 285 then userEntry 260 else .zero
  dirCounter _ := 1
  programbreakTable _ := heapStart + 5000
  ram _ _ := 0

theorem sampleHeap_page {page : Nat} (above : pagLogInitHeap ≤ page)
    (below : page * pageSize < heapStart + 5000) :
    page = 284 ∧ sampleHeap.frameOf pt page = 258 ∨
      page = 285 ∧ sampleHeap.frameOf pt page = 260 := by
  have listed : page = 284 ∨ page = 285 := by
    have start : pagLogInitHeap = 284 := rfl
    have bounds := heapBounds
    rw [pageSize] at below
    omega
  rcases listed with rfl | rfl
  · exact .inl ⟨rfl, rfl⟩
  · exact .inr ⟨rfl, rfl⟩

theorem sampleHeap_heapFromPool (pt slot : DirSlot) : sampleHeap.HeapFromPool pt slot where
  lower := Nat.le_add_right heapStart 5000
  upper := by
    change heapStart + 5000 ≤ heapLimit
    decide
  present page above _ := by
    change _ ↔ page * pageSize < heapStart + 5000
    constructor
    · intro present
      by_contra beyond
      have bounds := heapBounds
      rw [pageSize] at beyond
      have first : page ≠ 284 := by omega
      have second : page ≠ 285 := by omega
      simp [sampleHeap, first, second, PageTableEntry.zero] at present
    · intro below
      rcases @sampleHeap_page pt page above below with ⟨rfl, -⟩ | ⟨rfl, -⟩ <;> rfl
  inUse page above below := by
    rcases sampleHeap_page above below with ⟨-, frame⟩ | ⟨-, frame⟩ <;> rw [frame] <;> decide
  distinct page other above below above' below' same := by
    rcases sampleHeap_page above below with ⟨rfl, frame⟩ | ⟨rfl, frame⟩ <;>
      rcases sampleHeap_page above' below' with ⟨rfl, frame'⟩ | ⟨rfl, frame'⟩
    · rfl
    · rw [frame, frame'] at same
      cases same
    · rw [frame, frame'] at same
      cases same
    · rfl
  pooled page above below := by
    rcases sampleHeap_page above below with ⟨-, frame⟩ | ⟨-, frame⟩ <;> rw [frame] <;>
      decide +kernel
  first := rfl

end Mm

end Zeos
