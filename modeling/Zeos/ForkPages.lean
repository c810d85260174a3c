import Zeos.Directories
import Zeos.Heap
import Zeos.UserAccess

/-! # The pages of a fork

What `sys_fork` does to memory once the child has a directory: the child's code,
kernel and heap pages are mapped like the father's, frames for data and heap are
allocated, and page after page is copied through a window in the father's table.
-/

namespace Zeos

open Foundation

namespace Mm

variable {mm after : Mm} {child father slot pt : DirSlot}

/-! ## Pages mapped like the father's -/

def sharePages (mm : Mm) (child father : DirSlot) (pages : Finset Nat) : Mm :=
  { mm with
    pagusrTable := Function.update mm.pagusrTable child fun page =>
      if page ∈ pages then userEntry (mm.frameOf father page) else mm.pagusrTable child page }

theorem sharePages_child (mm : Mm) (child father : DirSlot) (pages : Finset Nat) (page : Nat) :
    (mm.sharePages child father pages).pagusrTable child page =
      if page ∈ pages then userEntry (mm.frameOf father page)
      else mm.pagusrTable child page := by
  simp [sharePages]

theorem sharePages_other (mm : Mm) (father : DirSlot) (pages : Finset Nat)
    (different : pt ≠ child) :
    (mm.sharePages child father pages).pagusrTable pt = mm.pagusrTable pt :=
  Function.update_of_ne different _ _

theorem userEntry_frame (entry : PageTableEntry) :
    userEntry entry.pbaseAddr.toNat = ⟨true, true, true, entry.pbaseAddr⟩ := by
  rw [userEntry, BitVec.ofNat_toNat, BitVec.setWidth_eq]

theorem sharePages_empty (mm : Mm) (child father : DirSlot) :
    mm.sharePages child father ∅ = mm := by
  cases mm with
  | mk physMem pagusrTable dirCounter programbreakTable ram =>
      simp [sharePages]

/-- Sharing does not change which frames the father's pages are on, even when the two
have the same table. -/
theorem sharePages_frameOf (mm : Mm) (child father : DirSlot) (pages : Finset Nat) (page : Nat) :
    (mm.sharePages child father pages).frameOf father page = mm.frameOf father page := by
  by_cases own : father = child
  · subst own
    rw [frameOf, sharePages_child]
    split
    · rw [frameOf, userEntry_frame]
    · rfl
  · rw [frameOf, sharePages_other mm father pages own]
    rfl

theorem copyEntry_eq (mm : Mm) (child father : DirSlot) {page : Nat} (inside : page < totalPages) :
    copyEntry child father page mm =
      .ok (mm.setEntry child page (userEntry (mm.frameOf father page))) := by
  rw [copyEntry, getFrame, if_pos inside, ok_bind, setSsPag, if_pos inside]
  rfl

theorem copyEntry_sharePages (mm : Mm) (child father : DirSlot) (pages : Finset Nat) {page : Nat}
    (inside : page < totalPages) :
    copyEntry child father page (mm.sharePages child father pages) =
      .ok (mm.sharePages child father (insert page pages)) := by
  rw [copyEntry_eq _ _ _ inside, sharePages_frameOf]
  apply congrArg Except.ok
  simp only [sharePages, setEntry, Mm.mk.injEq, true_and, and_true]
  funext other number
  by_cases same : other = child
  · subst same
    by_cases here : number = page
    · simp [here]
    · simp [here]
  · simp [same]

theorem shareLoop_eq (mm : Mm) (child father : DirSlot) (pages : Finset Nat) {start count : Nat}
    (inside : start + count ≤ totalPages) :
    countedLoop (copyEntry child father) start count (mm.sharePages child father pages) =
      .ok (mm.sharePages child father (pages ∪ Finset.Ico start (start + count))) := by
  have loop := @countedLoop_closedForm Fault Mm (copyEntry child father)
    (fun index => mm.sharePages child father (pages ∪ Finset.Ico start index)) start count
  rw [Finset.Ico_self, Finset.union_empty] at loop
  apply loop
  intro index above below
  rw [copyEntry_sharePages mm child father _ (by omega)]
  have larger : insert index (Finset.Ico start index) = Finset.Ico start (index + 1) := by
    ext page
    rw [Finset.mem_insert, Finset.mem_Ico, Finset.mem_Ico]
    omega
  rw [← Finset.union_insert, larger]

/-! ## Code, kernel and heap -/

def heapPages (mm : Mm) (slot : DirSlot) : Nat :=
  pagesBelow (mm.programbreakTable slot) - pagLogInitHeap

def HeapBreak (mm : Mm) (slot : DirSlot) : Prop :=
  heapStart ≤ mm.programbreakTable slot ∧ mm.programbreakTable slot ≤ heapLimit

def sharedPages (heapPages : Nat) : Finset Nat :=
  Finset.range pagLogInitData ∪ Finset.Ico pagLogInitHeap (pagLogInitHeap + heapPages)

theorem mem_sharedPages {heapPages page : Nat} :
    page ∈ sharedPages heapPages ↔
      page < pagLogInitData ∨ pagLogInitHeap ≤ page ∧ page < pagLogInitHeap + heapPages := by
  simp [sharedPages]

theorem HeapBreak.pages (heap : HeapBreak mm slot) :
    mm.programbreakPage slot + 1 = pagLogInitHeap + mm.heapPages slot ∧
      mm.pagHeap slot = mm.heapPages slot ∧ pagLogInitHeap + mm.heapPages slot ≤ totalPages := by
  have sizes := memoryMap
  have bounds := heapBounds
  rcases heap with ⟨lower, upper⟩
  simp only [pagHeap, programbreakPage, heapPages, pagesBelow, toUnsigned, sizes]
  omega

theorem forkShare_eq (heap : HeapBreak mm slot) :
    forkShare child father slot mm =
      .ok (mm.sharePages child father (sharedPages (mm.heapPages slot))) := by
  have sizes := memoryMap
  rcases heap.pages with ⟨last, -, inside⟩
  have count : mm.programbreakPage slot + 1 - pagLogInitHeap = mm.heapPages slot := by omega
  have code := @shareLoop_eq mm child father ∅ pagLogInitCode numPagCode (by omega)
  rw [sharePages_empty] at code
  have kernel := @shareLoop_eq mm child father
    (∅ ∪ Finset.Ico pagLogInitCode (pagLogInitCode + numPagCode)) 0 numPagKernel (by omega)
  have heap := @shareLoop_eq mm child father
    (∅ ∪ Finset.Ico pagLogInitCode (pagLogInitCode + numPagCode) ∪ Finset.Ico 0 (0 + numPagKernel))
    pagLogInitHeap (mm.heapPages slot) inside
  have pages : ∅ ∪ Finset.Ico pagLogInitCode (pagLogInitCode + numPagCode) ∪
      Finset.Ico 0 (0 + numPagKernel) ∪
        Finset.Ico pagLogInitHeap (pagLogInitHeap + mm.heapPages slot) =
      sharedPages (mm.heapPages slot) := by
    ext page
    simp only [Finset.mem_union, Finset.notMem_empty, false_or, Finset.mem_Ico, mem_sharedPages]
    omega
  rw [forkShare, code, ok_bind, kernel, ok_bind]
  change countedLoop _ pagLogInitHeap (mm.programbreakPage slot + 1 - pagLogInitHeap) _ = _
  rw [count, heap, pages]

def forkShared (mm : Mm) (child father slot : DirSlot) : Mm :=
  mm.sharePages child father (sharedPages (mm.heapPages slot))

theorem forkShared_eq_withTables (mm : Mm) (child father slot : DirSlot) :
    mm.forkShared child father slot = mm.withTables (mm.forkShared child father slot) := rfl

theorem forkPages_eq (heap : HeapBreak mm slot) :
    forkPages child father slot mm =
      match allocFrames (numPagData + mm.heapPages slot) mm [] with
      | (after, none) => .ok (after.withTables (mm.forkShared child father slot), false)
      | (after, some frames) => do
          let mm ← countedLoop (forkCopyPage child father (mm.heapPages slot) frames) 0
            (numPagData + mm.heapPages slot) (after.withTables (mm.forkShared child father slot))
          return (mm, true) := by
  rcases heap.pages with ⟨-, pages, -⟩
  have shared : forkShare child father slot mm = .ok (mm.forkShared child father slot) :=
    forkShare_eq heap
  have same : (mm.forkShared child father slot).pagHeap slot = mm.heapPages slot := pages
  have count : (numPagData + (mm.heapPages slot : Int)).toNat = numPagData + mm.heapPages slot := by
    omega
  have allocation := allocFrames_withTables (numPagData + mm.heapPages slot) mm
    (mm.forkShared child father slot) []
  rw [← forkShared_eq_withTables] at allocation
  rw [forkPages, shared, ok_bind]
  dsimp only
  rw [same, count, allocation]
  cases allocFrames (numPagData + mm.heapPages slot) mm [] with
  | mk after result => cases result <;> rfl

/-! ## Copying a page -/

def copyFrame (ram : Nat → Nat → UInt8) (source dest done : Nat) : Nat → Nat → UInt8 :=
  Function.update ram dest fun offset =>
    if offset < done then ram source offset else ram dest offset

theorem copyFrame_zero (ram : Nat → Nat → UInt8) (source dest : Nat) :
    copyFrame ram source dest 0 = ram := by
  simp [copyFrame]

/-- What has not been copied yet still has its value, also when the frame is copied to
itself. -/
theorem copyFrame_pending (ram : Nat → Nat → UInt8) (source dest : Nat) {done offset : Nat}
    (later : done ≤ offset) : copyFrame ram source dest done source offset = ram source offset := by
  by_cases same : source = dest
  · subst same
    rw [copyFrame, Function.update_self, if_neg (Nat.not_lt.mpr later)]
  · rw [copyFrame, Function.update_of_ne same]

theorem copyFrame_next (ram : Nat → Nat → UInt8) (source dest done : Nat) :
    Function.update (copyFrame ram source dest done) dest
        (Function.update (copyFrame ram source dest done dest) done (ram source done)) =
      copyFrame ram source dest (done + 1) := by
  funext frame offset
  by_cases here : frame = dest
  · subst here
    simp only [copyFrame, Function.update_self, Function.update_apply]
    by_cases next : offset = done
    · subst next
      simp
    · rw [if_neg next]
      by_cases before : offset < done
      · rw [if_pos before, if_pos (by omega)]
      · rw [if_neg before, if_neg (by omega)]
  · simp [copyFrame, here]

theorem translate_page {page offset : Nat} (mapped : mm.Mapped pt page)
    (inside : offset < pageSize) :
    mm.translate pt (page * pageSize + offset) = .ok (mm.frameOf pt page, offset) := by
  have size : pageSize = 4096 := rfl
  have number : (page * pageSize + offset) / pageSize = page := by
    rw [size] at inside ⊢
    omega
  have position : (page * pageSize + offset) % pageSize = offset := by
    rw [size] at inside ⊢
    omega
  rw [translate, number, position]
  exact if_pos mapped

theorem copyData_eq {source dest : Nat} (fromMapped : mm.Mapped pt source)
    (toMapped : mm.Mapped pt dest) (user : numPagKernel ≤ dest) :
    mm.copyData pt (source * pageSize) (dest * pageSize) pageSize =
      .ok { mm with
        ram := copyFrame mm.ram (mm.frameOf pt source) (mm.frameOf pt dest) pageSize } := by
  let stateAt (done : Nat) : Mm :=
    { mm with ram := copyFrame mm.ram (mm.frameOf pt source) (mm.frameOf pt dest) done }
  let value (offset : Nat) : UInt8 := mm.ram (mm.frameOf pt source) offset
  have pending : ByteMemory.Pending (through pt) (source * pageSize) pageSize stateAt value := by
    intro done offset later inside
    have mapped : (stateAt done).Mapped pt source := fromMapped
    change loadByte pt (stateAt done) _ = _
    rw [loadByte, translate_page mapped inside]
    exact congrArg Except.ok (copyFrame_pending _ _ _ later)
  have advances : ByteMemory.Advances (through pt) (dest * pageSize) pageSize stateAt value := by
    intro done inside
    have mapped : (stateAt done).Mapped pt dest := toMapped
    change storeByte pt (stateAt done) _ _ = _
    have page : (dest * pageSize + done) / pageSize = dest := by
      unfold pageSize at inside ⊢
      omega
    rw [storeByte, translate_page mapped inside, ok_bind, page, if_neg (Nat.not_lt.mpr user)]
    apply congrArg Except.ok
    change Mm.mk _ _ _ _ _ = Mm.mk _ _ _ _ _
    rw [Mm.mk.injEq]
    exact ⟨rfl, rfl, rfl, rfl, copyFrame_next _ _ _ _⟩
  have copied := ByteMemory.copy_eq pending.loads advances
  have start : stateAt 0 = mm := by
    change Mm.mk _ _ _ _ (copyFrame _ _ _ 0) = mm
    rw [copyFrame_zero]
  rw [start] at copied
  rw [copyData, Int.toNat_natCast]
  exact copied

theorem copyData_ne_ok {source dest : Nat} (unmapped : ¬mm.Mapped pt source) :
    mm.copyData pt (source * pageSize) dest pageSize ≠ .ok after := by
  intro copied
  have positive : 0 < (pageSize : Int).toNat := by decide
  rcases ByteMemory.load_of_copy_ok positive copied with ⟨byte, loaded⟩
  rcases bind_eq_ok.mp loaded with ⟨place, translated, -⟩
  have number : source * pageSize / pageSize = source := Nat.mul_div_cancel _ (by decide)
  rw [translate, number] at translated
  cases (if_neg unmapped).symm.trans translated

/-! ## One round of the copy -/

/-- The father's page behind the heap through which the frame for page `index` of the
child is filled. -/
theorem window_eq (heapPages index : Nat)
    (small : pagLogInitHeap + heapPages + index < 4294967296) :
    toUnsigned (pagLogInitData + numPagData + (heapPages : Int) + index) =
      pagLogInitHeap + heapPages + index := by
  have sizes := memoryMap
  rw [toUnsigned]
  omega

theorem setEntry_setEntry (mm : Mm) (pt : DirSlot) (page : Nat) (first second : PageTableEntry) :
    (mm.setEntry pt page first).setEntry pt page second = mm.setEntry pt page second := by
  simp [setEntry]

theorem userEntry_toNat {frame : Nat} (small : frame < totalPages) :
    (userEntry frame).pbaseAddr.toNat = frame := by
  have size : totalPages = 1024 := rfl
  rw [userEntry, BitVec.toNat_ofNat, Nat.mod_eq_of_lt]
  omega

def mapChild (mm : Mm) (child : DirSlot) (index frame : Nat) : Mm :=
  mm.setEntry child (pagLogInitData + index) (userEntry frame)

/-- Memory after a round: the page is mapped and filled, the window closed. When the
child has the father's own table, the page that is read is the new one. -/
def copiedPage (mm : Mm) (child father : DirSlot) (heapPages index frame : Nat) : Mm :=
  let mapped := mm.mapChild child index frame
  { mapped.setEntry father (pagLogInitHeap + heapPages + index) .zero with
    ram := copyFrame mm.ram (mapped.frameOf father (pagLogInitData + index)) frame pageSize }

/-- A round succeeds when the window is in the table and the page to be read is
mapped. -/
theorem forkCopyPage_eq_ok {heapPages index frame : Nat} {frames : List Nat}
    (below : index < numPagData + heapPages) (small : pagLogInitHeap + heapPages ≤ totalPages)
    (here : frames.getD index 0 = frame) (proper : frame < totalPages) :
    forkCopyPage child father heapPages frames index mm = .ok after ↔
      (pagLogInitHeap + heapPages + index < totalPages ∧
        (mm.mapChild child index frame).Mapped father (pagLogInitData + index)) ∧
      after = mm.copiedPage child father heapPages index frame := by
  have sizes := memoryMap
  let mapped := mm.mapChild child index frame
  let window := pagLogInitHeap + heapPages + index
  let opened := mapped.setEntry father window (userEntry frame)
  have data : pagLogInitData + index < totalPages := by omega
  have apart : pagLogInitData + index ≠ window := by
    change pagLogInitData + index ≠ pagLogInitHeap + heapPages + index
    omega
  have source : opened.pagusrTable father (pagLogInitData + index) =
      mapped.pagusrTable father (pagLogInitData + index) :=
    setEntry_otherPage mapped father (userEntry frame) apart
  have first : mm.setSsPag child (pagLogInitData + index) frame = .ok mapped := if_pos data
  rw [forkCopyPage, here, window_eq heapPages index (by omega), first, ok_bind]
  by_cases inside : window < totalPages
  · have second : mapped.setSsPag father window frame = .ok opened := if_pos inside
    rw [show pagLogInitHeap + heapPages + index = window from rfl, second, ok_bind]
    have there : opened.Mapped father window := by
      apply And.intro inside
      rw [setEntry_here]
      rfl
    by_cases readable : mapped.Mapped father (pagLogInitData + index)
    · have fromMapped : opened.Mapped father (pagLogInitData + index) := by
        apply And.intro data
        rw [source]
        exact readable.2
      have frameThere : opened.frameOf father window = frame := by
        rw [frameOf, setEntry_here, userEntry_toNat proper]
      have frameHere : opened.frameOf father (pagLogInitData + index) =
          mapped.frameOf father (pagLogInitData + index) := by
        rw [frameOf, source]
        rfl
      have user : numPagKernel ≤ window := by
        change numPagKernel ≤ pagLogInitHeap + heapPages + index
        omega
      rw [copyData_eq fromMapped there user, ok_bind, frameThere, frameHere, delSsPag,
        if_pos inside]
      have closed : ∀ ram : Nat → Nat → UInt8, ({ opened with ram := ram } : Mm).setEntry father
          window .zero = { mapped.setEntry father window .zero with ram := ram } := by
        intro ram
        have twice := setEntry_setEntry mapped father window (userEntry frame) .zero
        exact congrArg (fun mm => ({ mm with ram := ram } : Mm)) twice
      rw [closed]
      constructor
      · intro done
        exact ⟨⟨inside, readable⟩, (Except.ok.inj done).symm⟩
      · rintro ⟨-, same⟩
        exact congrArg Except.ok same.symm
    · constructor
      · intro done
        rcases bind_eq_ok.mp done with ⟨copied, copies, -⟩
        refine absurd copies (copyData_ne_ok fun fromMapped => readable ⟨data, ?_⟩)
        rw [← source]
        exact fromMapped.2
      · rintro ⟨⟨-, mappedHere⟩, -⟩
        exact absurd mappedHere readable
  · have second : mapped.setSsPag father window frame = .error (.tableBounds window) :=
      if_neg inside
    rw [show pagLogInitHeap + heapPages + index = window from rfl, second]
    constructor
    · intro done
      cases done
    · rintro ⟨⟨within, -⟩, -⟩
      exact absurd within inside

/-! ## The whole copy -/

def copiedPages (mm : Mm) (child father : DirSlot) (heapPages : Nat) (frames : List Nat) : Nat → Mm
  | 0 => mm
  | count + 1 =>
      (copiedPages mm child father heapPages frames count).copiedPage child father heapPages count
        (frames.getD count 0)

/-- The tables after some rounds: the child's pages are on their frames, and what the
father had where the window was is gone. -/
theorem copiedPages_table (mm : Mm) (child father : DirSlot) (heapPages : Nat) (frames : List Nat)
    {count : Nat} (within : count ≤ numPagData + heapPages) (pt : DirSlot) (page : Nat) :
    (mm.copiedPages child father heapPages frames count).pagusrTable pt page =
      if pt = child ∧ pagLogInitData ≤ page ∧ page < pagLogInitData + count then
        userEntry (frames.getD (page - pagLogInitData) 0)
      else if pt = father ∧ pagLogInitHeap + heapPages ≤ page ∧
          page < pagLogInitHeap + heapPages + count then .zero
      else mm.pagusrTable pt page := by
  have sizes := memoryMap
  induction count with
  | zero =>
      rw [if_neg (by omega), if_neg (by omega)]
      rfl
  | succ count induction =>
      have before := induction (by omega)
      let earlier := mm.copiedPages child father heapPages frames count
      let mapped := earlier.mapChild child count (frames.getD count 0)
      let window := pagLogInitHeap + heapPages + count
      change (mapped.setEntry father window .zero).pagusrTable pt page = _
      by_cases closed : pt = father ∧ page = window
      · rcases closed with ⟨samePt, samePage⟩
        subst samePt samePage
        have above : ¬window < pagLogInitData + (count + 1) := by
          change ¬pagLogInitHeap + heapPages + count < _
          omega
        rw [setEntry_here, if_neg fun inside => above inside.2.2,
          if_pos ⟨rfl, Nat.le_add_right _ _, Nat.lt_succ_self _⟩]
      · have unclosed : (mapped.setEntry father window .zero).pagusrTable pt page =
            mapped.pagusrTable pt page := by
          by_cases samePt : pt = father
          · subst samePt
            exact setEntry_otherPage _ _ _ fun samePage => closed ⟨rfl, samePage⟩
          · exact congrFun (setEntry_otherTable _ _ _ samePt) page
        rw [unclosed]
        by_cases fresh : pt = child ∧ page = pagLogInitData + count
        · rcases fresh with ⟨samePt, samePage⟩
          subst samePt samePage
          have index : pagLogInitData + count - pagLogInitData = count := by omega
          rw [if_pos ⟨rfl, by omega, by omega⟩, index]
          exact setEntry_here _ _ _ _
        · have old : mapped.pagusrTable pt page = earlier.pagusrTable pt page := by
            by_cases samePt : pt = child
            · subst samePt
              exact setEntry_otherPage _ _ _ fun samePage => fresh ⟨rfl, samePage⟩
            · exact congrFun (setEntry_otherTable _ _ _ samePt) page
          rw [old, before]
          have child_iff : (pt = child ∧ pagLogInitData ≤ page ∧ page < pagLogInitData + count) ↔
              (pt = child ∧ pagLogInitData ≤ page ∧ page < pagLogInitData + (count + 1)) := by
            constructor
            · rintro ⟨same, lower, upper⟩
              exact ⟨same, lower, by omega⟩
            · rintro ⟨same, lower, upper⟩
              have different : page ≠ pagLogInitData + count := fun here => fresh ⟨same, here⟩
              exact ⟨same, lower, by omega⟩
          have father_iff : (pt = father ∧ pagLogInitHeap + heapPages ≤ page ∧
              page < pagLogInitHeap + heapPages + count) ↔
              (pt = father ∧ pagLogInitHeap + heapPages ≤ page ∧
                page < pagLogInitHeap + heapPages + (count + 1)) := by
            constructor
            · rintro ⟨same, lower, upper⟩
              exact ⟨same, lower, by omega⟩
            · rintro ⟨same, lower, upper⟩
              have different : page ≠ pagLogInitHeap + heapPages + count :=
                fun here => closed ⟨same, here⟩
              exact ⟨same, lower, by omega⟩
          simp only [child_iff, father_iff]

theorem copiedPages_rest (mm : Mm) (child father : DirSlot) (heapPages : Nat) (frames : List Nat)
    (count : Nat) :
    mm.copiedPages child father heapPages frames count =
      { mm with
        pagusrTable := (mm.copiedPages child father heapPages frames count).pagusrTable
        ram := (mm.copiedPages child father heapPages frames count).ram } := by
  induction count with
  | zero => rfl
  | succ count induction =>
      rw [copiedPages, induction]
      rfl

/-- The copy finishes when the window stays in the father's table and, unless the
child has that table too, all pages to be read are mapped. -/
theorem copyLoop_eq_ok {heapPages count : Nat} {frames : List Nat}
    (within : count ≤ numPagData + heapPages) (small : pagLogInitHeap + heapPages ≤ totalPages)
    (proper : ∀ index < count, frames.getD index 0 < totalPages) :
    countedLoop (forkCopyPage child father heapPages frames) 0 count mm = .ok after ↔
      (∀ index < count, pagLogInitHeap + heapPages + index < totalPages ∧
        (child = father ∨ mm.Mapped father (pagLogInitData + index))) ∧
      after = mm.copiedPages child father heapPages frames count := by
  have sizes := memoryMap
  let Allowed (index : Nat) : Prop := pagLogInitHeap + heapPages + index < totalPages ∧
    (child = father ∨ mm.Mapped father (pagLogInitData + index))
  have loop := @countedLoop_eq_ok Fault Mm (forkCopyPage child father heapPages frames) Allowed
    (mm.copiedPages child father heapPages frames) 0 count after
  rw [Nat.zero_add] at loop
  have start : mm.copiedPages child father heapPages frames 0 = mm := rfl
  rw [start] at loop
  refine (loop ?_).trans (and_congr_left fun _ => ?_)
  · intro index _ below next
    rw [forkCopyPage_eq_ok (by omega) small rfl (proper index below)]
    refine and_congr_left fun _ => and_congr_right fun inside => ?_
    by_cases own : child = father
    · subst own
      constructor
      · intro _
        exact .inl rfl
      · intro _
        refine ⟨by omega, ?_⟩
        rw [mapChild, setEntry_here]
        rfl
    · have table : ((mm.copiedPages child father heapPages frames index).mapChild child index
          (frames.getD index 0)).pagusrTable father (pagLogInitData + index) =
            mm.pagusrTable father (pagLogInitData + index) := by
        rw [mapChild, setEntry_otherTable _ _ _ (Ne.symm own),
          copiedPages_table mm child father heapPages frames (by omega),
          if_neg fun inside => own inside.1.symm, if_neg (by omega)]
      rw [Mapped, table]
      exact ⟨.inr, fun either => either.resolve_left own⟩
  · exact ⟨fun each index below => each index (Nat.zero_le _) below,
      fun each index _ below => each index below⟩

/-! ## The outcomes -/

def forkCopied (mm : Mm) (child father slot : DirSlot) (frames : List Nat) : Mm :=
  ((mm.mark frames .usedFrame).withTables (mm.forkShared child father slot)).copiedPages child
    father
    (mm.heapPages slot) frames (numPagData + mm.heapPages slot)

def forkedPages (heapPages : Nat) : Finset Nat :=
  Finset.Ico pagLogInitData (pagLogInitHeap + heapPages)

theorem mem_forkedPages {heapPages page : Nat} :
    page ∈ forkedPages heapPages ↔ pagLogInitData ≤ page ∧ page < pagLogInitHeap + heapPages :=
  Finset.mem_Ico

def windowPages (heapPages : Nat) : Finset Nat :=
  Finset.Ico (pagLogInitHeap + heapPages) (pagLogInitHeap + heapPages + (numPagData + heapPages))

theorem mem_windowPages {heapPages page : Nat} :
    page ∈ windowPages heapPages ↔ pagLogInitHeap + heapPages ≤ page ∧
      page < pagLogInitHeap + heapPages + (numPagData + heapPages) :=
  Finset.mem_Ico

theorem forkCopied_table (mm : Mm) (child father slot : DirSlot) (frames : List Nat)
    (pt : DirSlot) (page : Nat) :
    (mm.forkCopied child father slot frames).pagusrTable pt page =
      if pt = child ∧ page ∈ forkedPages (mm.heapPages slot) then
        userEntry (frames.getD (page - pagLogInitData) 0)
      else if pt = father ∧ page ∈ windowPages (mm.heapPages slot) then .zero
      else if pt = child ∧ page < pagLogInitData then userEntry (mm.frameOf father page)
      else mm.pagusrTable pt page := by
  have sizes := memoryMap
  have total : pagLogInitData + (numPagData + mm.heapPages slot) =
      pagLogInitHeap + mm.heapPages slot := by
    omega
  rw [forkCopied, copiedPages_table _ _ _ _ _ (Nat.le_refl _), total]
  refine if_ctx_congr (and_congr_right fun _ => mem_forkedPages.symm) (fun _ => rfl)
    fun notFresh => if_congr (and_congr_right fun _ => mem_windowPages.symm) rfl ?_
  change (mm.sharePages child father (sharedPages (mm.heapPages slot))).pagusrTable pt page = _
  by_cases own : pt = child
  · subst own
    rw [sharePages_child]
    refine if_congr ?_ rfl rfl
    rw [mem_sharedPages]
    constructor
    · rintro (low | heap)
      · exact ⟨rfl, low⟩
      · exact absurd ⟨rfl, mem_forkedPages.mpr ⟨by omega, heap.2⟩⟩ notFresh
    · exact fun low => .inl low.2
  · rw [sharePages_other mm father _ own, if_neg fun low => own low.1]

theorem forkCopied_rest (mm : Mm) (child father slot : DirSlot) (frames : List Nat) :
    (mm.forkCopied child father slot frames).physMem = (mm.mark frames .usedFrame).physMem ∧
      (mm.forkCopied child father slot frames).dirCounter = mm.dirCounter ∧
      (mm.forkCopied child father slot frames).programbreakTable = mm.programbreakTable := by
  rw [forkCopied, copiedPages_rest]
  exact ⟨rfl, rfl, rfl⟩

def Readable (mm : Mm) (father slot : DirSlot) : Prop :=
  ∀ page ∈ forkedPages (mm.heapPages slot), mm.Mapped father page

theorem forkPages_true (heap : HeapBreak mm slot) :
    forkPages child father slot mm = .ok (after, true) ↔
      ∃ frames, allocFrames (numPagData + mm.heapPages slot) mm [] =
          (mm.mark frames .usedFrame, some frames) ∧
        pagLogInitHeap + mm.heapPages slot + (numPagData + mm.heapPages slot) ≤ totalPages ∧
        (child = father ∨ mm.Readable father slot) ∧
        after = mm.forkCopied child father slot frames := by
  have sizes := memoryMap
  rcases heap.pages with ⟨-, -, small⟩
  rw [forkPages_eq heap]
  cases allocation : allocFrames (numPagData + mm.heapPages slot) mm [] with
  | mk middle result =>
      cases result with
      | none =>
          constructor
          · intro done
            cases done
          · rintro ⟨frames, found, -⟩
            cases found
      | some frames =>
          rcases allocFrames_some allocation with ⟨fresh, same, length, -, members, marked⟩
          rw [List.nil_append] at same
          subst same
          have proper : ∀ index < numPagData + mm.heapPages slot,
              frames.getD index 0 < totalPages := by
            intro index below
            rw [← length] at below
            exact (mem_available.mp (members _ (getD_mem below))).1
          have loop := @copyLoop_eq_ok (middle.withTables (mm.forkShared child father slot))
            (after) child father (mm.heapPages slot) (numPagData + mm.heapPages slot) frames
            (Nat.le_refl _) small proper
          have mapped : child ≠ father → ∀ page,
              (middle.withTables (mm.forkShared child father slot)).Mapped father page ↔
                mm.Mapped father page := by
            intro own page
            have table : (mm.forkShared child father slot).pagusrTable father =
                mm.pagusrTable father := sharePages_other mm father _ (Ne.symm own)
            change page < totalPages ∧ ((mm.forkShared child father slot).pagusrTable father
              page).present = true ↔ _
            rw [table]
            exact .rfl
          subst marked
          constructor
          · intro done
            rcases bind_eq_ok.mp done with ⟨copied, looped, same⟩
            cases same
            rcases loop.mp looped with ⟨each, same⟩
            refine ⟨frames, rfl, ?_, ?_, same⟩
            · have last := (each (numPagData + mm.heapPages slot - 1) (by omega)).1
              omega
            · by_cases own : child = father
              · exact .inl own
              · apply Or.inr
                intro page member
                rcases mem_forkedPages.mp member with ⟨lower, upper⟩
                have here := (each (page - pagLogInitData) (by omega)).2.resolve_left own
                rw [mapped own, Nat.add_sub_cancel' lower] at here
                exact here
          · rintro ⟨others, found, fits, readable, same⟩
            have named : frames = others := Option.some.inj (Prod.mk.inj found).2
            subst named
            refine bind_eq_ok.mpr ⟨after, loop.mpr ⟨fun index below => ⟨by omega, ?_⟩, same⟩, rfl⟩
            by_cases own : child = father
            · exact .inl own
            · apply Or.inr
              rw [mapped own]
              exact readable.resolve_left own _ (mem_forkedPages.mpr ⟨by omega, by omega⟩)

theorem forkPages_false (heap : HeapBreak mm slot) (first : mm.physMem numPagKernel = .usedFrame) :
    forkPages child father slot mm = .ok (after, false) ↔
      mm.available.card < numPagData + mm.heapPages slot ∧
        after = mm.forkShared child father slot := by
  have enough := allocFrames_isSome (numPagData + mm.heapPages slot) mm []
  rw [forkPages_eq heap]
  cases allocation : allocFrames (numPagData + mm.heapPages slot) mm [] with
  | mk middle result =>
      rw [allocation] at enough
      cases result with
      | none =>
          have few : mm.available.card < numPagData + mm.heapPages slot :=
            Nat.not_le.mp fun holds => Bool.false_ne_true (enough.mpr holds)
          rw [← mark_nil mm .usedFrame] at allocation
          have same := allocFrames_none allocation (by simp) first
          subst same
          constructor
          · intro done
            cases done
            exact ⟨few, rfl⟩
          · rintro ⟨-, same⟩
            rw [same]
            rfl
      | some frames =>
          constructor
          · intro done
            rcases bind_eq_ok.mp done with ⟨copied, -, same⟩
            cases same
          · rintro ⟨few, -⟩
            exact absurd (enough.mp rfl) (Nat.not_le.mpr few)

end Mm

end Zeos
