import Zeos.Foundation.PageWalk
import Zeos.Heap
import Zeos.Mmu
import Zeos.System

/-! # Page tables in memory

The page directories and page tables as the words that they are (`page_table_entry`,
`dir_pages` and `pagusr_table`), and the routines that read and write them. What the
processor makes of the words is what the tables of memory management say.
-/

namespace Zeos

open Foundation

/-! ## Entries as words -/

def putBit (index : Nat) (bit : Bool) (entry : Word) : Word :=
  if bit then entry ||| BitVec.twoPow 32 index else entry &&& ~~~BitVec.twoPow 32 index

def putPresent : Bool → Word → Word := putBit 0

def putRw : Bool → Word → Word := putBit 1

def putUser : Bool → Word → Word := putBit 2

def putPbaseAddr (frame entry : Word) : Word := entry &&& 0xFFF ||| frame <<< 12

def wordPbaseAddr (entry : Word) : BitVec 20 := entry.extractLsb' 12 20

def PageTableEntry.ofWord (entry : Word) : PageTableEntry :=
  ⟨Paging.present entry, Paging.writable entry, Paging.userAccessible entry, wordPbaseAddr entry⟩

theorem getLsbD_putBit (index bit : Nat) (value : Bool) (entry : Word) (inside : bit < 32) :
    (putBit index value entry).getLsbD bit =
      if bit = index then value else entry.getLsbD bit := by
  unfold putBit
  by_cases here : bit = index
  · subst here
    cases value <;> simp [inside]
  · cases value <;> simp [inside, here]

theorem getLsbD_putPbaseAddr (frame entry : Word) (bit : Nat) (inside : bit < 32) :
    (putPbaseAddr frame entry).getLsbD bit =
      if bit < 12 then entry.getLsbD bit else frame.getLsbD (bit - 12) := by
  have mask : ∀ bit : Fin 32, (0xFFF#32).getLsbD bit = decide (bit.val < 12) := by decide
  have kept := mask ⟨bit, inside⟩
  change (entry &&& 0xFFF#32 ||| frame <<< 12).getLsbD bit = _
  rw [BitVec.getLsbD_or, BitVec.getLsbD_and, kept, BitVec.getLsbD_shiftLeft]
  by_cases low : bit < 12
  · simp [low]
  · simp [low, inside]

theorem wordPbaseAddr_putBit {index : Nat} (low : index < 12) (value : Bool) (entry : Word) :
    wordPbaseAddr (putBit index value entry) = wordPbaseAddr entry := by
  apply BitVec.eq_of_getLsbD_eq
  intro bit inside
  rw [wordPbaseAddr, wordPbaseAddr, BitVec.getLsbD_extractLsb', BitVec.getLsbD_extractLsb',
    getLsbD_putBit _ _ _ _ (by omega), if_neg (by omega)]

theorem wordPbaseAddr_putPbaseAddr (frame entry : Word) :
    wordPbaseAddr (putPbaseAddr frame entry) = frame.setWidth 20 := by
  apply BitVec.eq_of_getLsbD_eq
  intro bit inside
  rw [wordPbaseAddr, BitVec.getLsbD_extractLsb', getLsbD_putPbaseAddr _ _ _ (by omega),
    if_neg (by omega), Nat.add_sub_cancel_left, BitVec.getLsbD_setWidth]

namespace PageTableEntry

@[simp] theorem ofWord_zero : ofWord 0#32 = .zero := by decide

theorem ofWord_putBit {index : Nat} (low : index < 12) (bit : Bool) (entry : Word) :
    ofWord (putBit index bit entry) =
      ⟨if 0 = index then bit else (ofWord entry).present,
        if 1 = index then bit else (ofWord entry).rw,
        if 2 = index then bit else (ofWord entry).user, (ofWord entry).pbaseAddr⟩ := by
  unfold ofWord Paging.present Paging.writable Paging.userAccessible
  rw [getLsbD_putBit _ _ _ _ (by decide), getLsbD_putBit _ _ _ _ (by decide),
    getLsbD_putBit _ _ _ _ (by decide), wordPbaseAddr_putBit low]

@[simp] theorem ofWord_putPresent (bit : Bool) (entry : Word) :
    ofWord (putPresent bit entry) = { ofWord entry with present := bit } :=
  ofWord_putBit (by decide) bit entry

@[simp] theorem ofWord_putRw (bit : Bool) (entry : Word) :
    ofWord (putRw bit entry) = { ofWord entry with rw := bit } :=
  ofWord_putBit (by decide) bit entry

@[simp] theorem ofWord_putUser (bit : Bool) (entry : Word) :
    ofWord (putUser bit entry) = { ofWord entry with user := bit } :=
  ofWord_putBit (by decide) bit entry

@[simp] theorem ofWord_putPbaseAddr (frame entry : Word) :
    ofWord (putPbaseAddr frame entry) =
      { ofWord entry with pbaseAddr := frame.setWidth 20 } := by
  unfold ofWord Paging.present Paging.writable Paging.userAccessible
  rw [getLsbD_putPbaseAddr _ _ _ (by decide), getLsbD_putPbaseAddr _ _ _ (by decide),
    getLsbD_putPbaseAddr _ _ _ (by decide), wordPbaseAddr_putPbaseAddr]
  rfl

end PageTableEntry

theorem setWidth_ofNat (frame : Nat) :
    (BitVec.ofNat 32 frame).setWidth 20 = BitVec.ofNat 20 frame := by
  apply BitVec.eq_of_toNat_eq
  simp only [BitVec.toNat_setWidth, BitVec.toNat_ofNat]
  omega

/-! ## Places -/

/-- Where `dir_pages` and `pagusr_table` are: in the kernel, each directory and each table
on a page of its own. -/
structure PagingLayout where
  dirPages : Nat
  pagusrTable : Nat
  dirPages_aligned : dirPages % pageSize = 0
  pagusrTable_aligned : pagusrTable % pageSize = 0
  dirPages_below : dirPages + nrTasks * pageSize ≤ numPagKernel * pageSize
  pagusrTable_below : pagusrTable + nrTasks * pageSize ≤ numPagKernel * pageSize
  apart : dirPages + nrTasks * pageSize ≤ pagusrTable ∨
    pagusrTable + nrTasks * pageSize ≤ dirPages

def PagingLayout.sample : PagingLayout where
  dirPages := 0x20000
  pagusrTable := 0x2A000
  dirPages_aligned := by decide
  pagusrTable_aligned := by decide
  dirPages_below := by decide
  pagusrTable_below := by decide
  apart := by decide

def entryAddress (table : Word) (page : Nat) : Word := table + 4 * BitVec.ofNat 32 page

namespace PagingLayout

variable (layout : PagingLayout)

def directory (slot : DirSlot) : Word := BitVec.ofNat 32 (layout.dirPages + pageSize * slot.val)

def table (slot : DirSlot) : Word := BitVec.ofNat 32 (layout.pagusrTable + pageSize * slot.val)

def pos (dir : Word) : DirSlot :=
  Fin.ofNat nrTasks ((dir - BitVec.ofNat 32 layout.dirPages) >>> 12).toNat

variable {layout} {slot other : DirSlot} {page index : Nat}

theorem slot_lt (slot : DirSlot) : slot.val < 10 := slot.isLt

theorem bounds (layout : PagingLayout) : layout.dirPages + 40960 ≤ 1048576 ∧
    layout.pagusrTable + 40960 ≤ 1048576 ∧
      (layout.dirPages + 40960 ≤ layout.pagusrTable ∨
        layout.pagusrTable + 40960 ≤ layout.dirPages) :=
  ⟨layout.dirPages_below, layout.pagusrTable_below, layout.apart⟩

theorem entryAddress_toNat {table : Word} (below : table.toNat + 4096 ≤ 1048576)
    (inside : index < 1024) : (entryAddress table index).toNat = table.toNat + 4 * index := by
  have four : (4 : Word).toNat = 4 := rfl
  rw [entryAddress, BitVec.toNat_add, BitVec.toNat_mul, BitVec.toNat_ofNat, four]
  omega

theorem directory_toNat : (layout.directory slot).toNat = layout.dirPages + 4096 * slot.val := by
  rcases layout.bounds with ⟨below, -, -⟩
  have bounded := slot_lt slot
  have size : pageSize = 4096 := rfl
  rw [directory, BitVec.toNat_ofNat, size]
  omega

theorem table_toNat : (layout.table slot).toNat = layout.pagusrTable + 4096 * slot.val := by
  rcases layout.bounds with ⟨-, below, -⟩
  have bounded := slot_lt slot
  have size : pageSize = 4096 := rfl
  rw [table, BitVec.toNat_ofNat, size]
  omega

theorem directoryEntry_toNat (inside : index < 1024) :
    (entryAddress (layout.directory slot) index).toNat =
      layout.dirPages + 4096 * slot.val + 4 * index := by
  rcases layout.bounds with ⟨below, -, -⟩
  have bounded := slot_lt slot
  rw [entryAddress_toNat (by rw [directory_toNat]; omega) inside, directory_toNat]

theorem tableEntry_toNat (inside : page < 1024) :
    (entryAddress (layout.table slot) page).toNat =
      layout.pagusrTable + 4096 * slot.val + 4 * page := by
  rcases layout.bounds with ⟨-, below, -⟩
  have bounded := slot_lt slot
  rw [entryAddress_toNat (by rw [table_toNat]; omega) inside, table_toNat]

theorem apart_of_gap {left right : Word} (leftLow : left.toNat < 1048576)
    (rightLow : right.toNat < 1048576)
    (gap : left.toNat + 4 ≤ right.toNat ∨ right.toNat + 4 ≤ left.toNat) : Apart left right := by
  constructor <;> bv_omega

theorem numbers_differ (different : ¬(other = slot ∧ index = page)) :
    other.val ≠ slot.val ∨ index ≠ page := by
  by_cases sameSlot : other = slot
  · exact .inr fun same => different ⟨sameSlot, same⟩
  · exact .inl fun same => sameSlot (Fin.ext same)

theorem tables_apart (inside : page < 1024) (otherInside : index < 1024)
    (different : ¬(other = slot ∧ index = page)) :
    Apart (entryAddress (layout.table slot) page) (entryAddress (layout.table other) index) := by
  have here := @tableEntry_toNat layout slot page inside
  have there := @tableEntry_toNat layout other index otherInside
  have differ := numbers_differ different
  have bounded := slot_lt slot
  have otherBounded := slot_lt other
  rcases layout.bounds with ⟨-, below, -⟩
  apply apart_of_gap <;> omega

theorem directories_apart (inside : page < 1024) (otherInside : index < 1024)
    (different : ¬(other = slot ∧ index = page)) :
    Apart (entryAddress (layout.directory slot) page)
      (entryAddress (layout.directory other) index) := by
  have here := @directoryEntry_toNat layout slot page inside
  have there := @directoryEntry_toNat layout other index otherInside
  have differ := numbers_differ different
  have bounded := slot_lt slot
  have otherBounded := slot_lt other
  rcases layout.bounds with ⟨below, -, -⟩
  apply apart_of_gap <;> omega

theorem kinds_apart (inside : page < 1024) (otherInside : index < 1024) :
    Apart (entryAddress (layout.table slot) page)
      (entryAddress (layout.directory other) index) := by
  have here := @tableEntry_toNat layout slot page inside
  have there := @directoryEntry_toNat layout other index otherInside
  have bounded := slot_lt slot
  have otherBounded := slot_lt other
  rcases layout.bounds with ⟨dirBelow, tableBelow, apart⟩
  apply apart_of_gap <;> omega

theorem pos_directory : layout.pos (layout.directory slot) = slot := by
  rcases layout.bounds with ⟨below, -, -⟩
  have bounded := slot_lt slot
  have here := @directory_toNat layout slot
  have base : (BitVec.ofNat 32 layout.dirPages).toNat = layout.dirPages := by
    rw [BitVec.toNat_ofNat]
    omega
  have number : ((layout.directory slot - BitVec.ofNat 32 layout.dirPages) >>> 12).toNat =
      slot.val := by
    rw [BitVec.toNat_ushiftRight, Nat.shiftRight_eq_div_pow, BitVec.toNat_sub, here, base]
    omega
  apply Fin.ext
  rw [pos, Fin.val_ofNat, number]
  exact Nat.mod_eq_of_lt slot.isLt

end PagingLayout

/-! ## The routines -/

/-- Memory management with its tables as words in memory. -/
structure PageStore where
  memory : ByteMap
  physMem : Nat → FrameMark
  dirCounter : DirSlot → Int
  programbreakTable : DirSlot → Nat
  ram : Nat → Nat → UInt8

namespace PageStore

def vars (store : PageStore) : Mm where
  physMem := store.physMem
  pagusrTable _ _ := .zero
  dirCounter := store.dirCounter
  programbreakTable := store.programbreakTable
  ram := store.ram

def withVars (store : PageStore) (mm : Mm) : PageStore where
  memory := store.memory
  physMem := mm.physMem
  dirCounter := mm.dirCounter
  programbreakTable := mm.programbreakTable
  ram := mm.ram

def onVars {α : Type} (store : PageStore) (change : Mm → Mm × α) : PageStore × α :=
  (store.withVars (change store.vars).1, (change store.vars).2)

def modify (store : PageStore) (address : Word) (change : Word → Word) : PageStore :=
  { store with memory := store.memory.store address (change (store.memory.load address)) }

def allocFrame (store : PageStore) : PageStore × Option Nat := store.onVars Mm.allocFrame

def allocFrames (count : Nat) (store : PageStore) : PageStore × Option (List Nat) :=
  store.onVars fun mm => Mm.allocFrames count mm []

def freeFrame (store : PageStore) (frame : Nat) : PageStore :=
  store.withVars (store.vars.freeFrame frame)

/-- `get_PT`, from the first entry of the directory. -/
def getPt (store : PageStore) (dir : Word) : Word :=
  (wordPbaseAddr (store.memory.load (entryAddress dir 0))).setWidth 32 <<< 12

/-- The source writes through the linear address of the table, which lies in the kernel's
own pages, and these every directory has in their place. -/
def setSsPag (table : Word) (page frame : Nat) (store : PageStore) : Except Fault PageStore :=
  if page < totalPages then
    let place := entryAddress table page
    let store := store.modify place fun _ => 0
    let store := store.modify place (putPbaseAddr (BitVec.ofNat 32 frame))
    let store := store.modify place (putUser true)
    let store := store.modify place (putRw true)
    .ok (store.modify place (putPresent true))
  else .error (.tableBounds page)

def delSsPag (table : Word) (page : Nat) (store : PageStore) : Except Fault PageStore :=
  if page < totalPages then .ok (store.modify (entryAddress table page) fun _ => 0)
  else .error (.tableBounds page)

def getFrame (table : Word) (page : Nat) (store : PageStore) : Except Fault Nat :=
  if page < totalPages then
    .ok (wordPbaseAddr (store.memory.load (entryAddress table page))).toNat
  else .error (.tableBounds page)

/-- The kernel loads a byte with the directory in CR3. -/
def loadByte (dir : Word) (store : PageStore) (address : Nat) : Except Fault UInt8 :=
  match Paging.walk store.memory dir (BitVec.ofNat 32 address) ⟨false, false⟩ with
  | some physical => .ok (store.ram (physical.toNat / pageSize) (physical.toNat % pageSize))
  | none => .error (.pageFault address)

def storeByte (dir : Word) (store : PageStore) (address : Nat) (byte : UInt8) :
    Except Fault PageStore :=
  match Paging.walk store.memory dir (BitVec.ofNat 32 address) ⟨false, true⟩ with
  | some physical =>
      if address / pageSize < numPagKernel then .error (.kernelPage (address / pageSize))
      else .ok { store with
        ram := Function.update store.ram (physical.toNat / pageSize)
          (Function.update (store.ram (physical.toNat / pageSize)) (physical.toNat % pageSize)
            byte) }
  | none => .error (.pageFault address)

def through (dir : Word) : ByteMemory PageStore Fault := ⟨loadByte dir, storeByte dir⟩

def copyData (store : PageStore) (dir : Word) (start dest : Nat) (size : Int) :
    Except Fault PageStore :=
  (through dir).copy start dest size.toNat store

/-! ## `init_mm` and `set_user_pages` -/

def forPages (body : Nat → PageStore → PageStore) : Nat → Nat → PageStore → PageStore
  | _, 0, store => store
  | page, count + 1, store => forPages body (page + 1) count (body page store)

/-- The body of the loop of `init_table_pages`. -/
def initTable (machine : Machine) (table : Word) (store : PageStore) : PageStore :=
  let store := forPages (fun page store => store.modify (entryAddress table page) fun _ => 0)
    0 totalPages store
  let store := forPages (fun page store =>
      let place := entryAddress table page
      let store := store.modify place (putPbaseAddr (BitVec.ofNat 32 page))
      let store := store.modify place (putRw true)
      store.modify place (putPresent true))
    1 (numPagKernel - 1) store
  let store := store.modify (entryAddress table machine.protectedTasks) (putPresent false)
  store.modify (entryAddress table (machine.protectedTasks + 11)) (putPresent false)

def initTablePages (machine : Machine) (layout : PagingLayout) (store : PageStore) : PageStore :=
  (List.finRange nrTasks).foldl
    (fun store slot => store.initTable machine (layout.table slot)) store

def initDir (dir table : Word) (store : PageStore) : PageStore :=
  let place := entryAddress dir 0
  let store := store.modify place fun _ => 0
  let store := store.modify place (putPbaseAddr (table >>> 12))
  let store := store.modify place (putUser true)
  let store := store.modify place (putRw true)
  store.modify place (putPresent true)

def initDirPages (layout : PagingLayout) (store : PageStore) : PageStore :=
  (List.finRange nrTasks).foldl (fun store slot =>
    store.initDir (layout.directory slot) (layout.table slot)) store

/-- The result of `alloc_frame` as a word. -/
def frameWord : Option Nat → Word
  | some frame => BitVec.ofNat 32 frame
  | none => BitVec.ofInt 32 (-1)

def mapFreshPages (rw : Bool) (table : Word) : Nat → Nat → PageStore → PageStore
  | 0, _, store => store
  | count + 1, page, store =>
      let (store, frame) := store.allocFrame
      let place := entryAddress table page
      let store := store.modify place fun _ => 0
      let store := store.modify place (putPbaseAddr (frameWord frame))
      let store := store.modify place (putUser true)
      let store := if rw then store.modify place (putRw true) else store
      mapFreshPages rw table count (page + 1) (store.modify place (putPresent true))

def setUserPages (store : PageStore) (dir : Word) : PageStore :=
  let table := store.getPt dir
  mapFreshPages true table numPagData pagLogInitData
    (mapFreshPages false table numPagCode pagLogInitCode store)

/-! ## `sys_fork`, `sys_exit` and `sys_sbrk` -/

def copyEntry (child father : Word) (page : Nat) (store : PageStore) : Except Fault PageStore := do
  let frame ← store.getFrame father page
  store.setSsPag child page frame

def forkShare (child father : Word) (slot : DirSlot) (store : PageStore) :
    Except Fault PageStore := do
  let store ← countedLoop (copyEntry child father) pagLogInitCode numPagCode store
  let store ← countedLoop (copyEntry child father) 0 numPagKernel store
  countedLoop (copyEntry child father) pagLogInitHeap
    (store.vars.programbreakPage slot + 1 - pagLogInitHeap) store

def forkCopyPage (child father dir : Word) (heapPages : Int) (frames : List Nat) (i : Nat)
    (store : PageStore) : Except Fault PageStore := do
  let pagenumber := frames.getD i 0
  let window := toUnsigned (pagLogInitData + numPagData + heapPages + i)
  let store ← store.setSsPag child (pagLogInitData + i) pagenumber
  let store ← store.setSsPag father window pagenumber
  let store ← store.copyData dir ((pagLogInitData + i) * pageSize) (window * pageSize) pageSize
  store.delSsPag father window

def forkPages (childDir fatherDir : Word) (slot : DirSlot) (store : PageStore) :
    Except Fault (PageStore × Bool) := do
  let father := store.getPt fatherDir
  let child := store.getPt childDir
  let store ← forkShare child father slot store
  let heapPages := store.vars.pagHeap slot
  let count := (numPagData + heapPages).toNat
  match store.allocFrames count with
  | (store, none) => return (store, false)
  | (store, some frames) => do
      let store ← countedLoop (forkCopyPage child father fatherDir heapPages frames) 0 count store
      return (store, true)

def releasePage (table : Word) (page : Nat) (store : PageStore) : Except Fault PageStore := do
  let frame ← store.getFrame table page
  (store.freeFrame frame).delSsPag table page

def freeUserPages (store : PageStore) (dir : Word) (slot : DirSlot) : Except Fault PageStore := do
  let table := store.getPt dir
  let store ← countedLoop (releasePage table) pagLogInitData numPagData store
  countedLoop (releasePage table) pagLogInitHeap
    (toSigned (store.programbreakTable slot) / pageSize + 1 - pagLogInitHeap).toNat store

def releaseDir (layout : PagingLayout) (store : PageStore) (dir : Word) (slot : DirSlot) :
    Except Fault PageStore :=
  let pos := layout.pos dir
  let store := { store with
    dirCounter := Function.update store.dirCounter pos (store.dirCounter pos - 1) }
  if store.dirCounter pos = 0 then store.freeUserPages dir slot else .ok store

def sbrkGrow (table : Word) (slot : DirSlot) (endaddress : Nat) (store : PageStore) :
    Except Fault (PageStore × Bool) :=
  let (npages, tpentry) := Mm.sbrkGrowth (store.programbreakTable slot) endaddress
  if Mm.arrayRoom < npages then .error (.stackOverflow npages)
  else match store.allocFrames npages with
  | (store, none) => return (store, false)
  | (store, some frames) =>
      if tpentry < numPagKernel then .error (.kernelPage tpentry)
      else do
        let store ← countedLoop
          (fun i store => store.setSsPag table (tpentry + i) (frames.getD i 0)) 0 npages store
        return (store, true)

def sbrkShrink (table : Word) (slot : DirSlot) (endaddress : Nat) (store : PageStore) :
    Except Fault PageStore := do
  let iniPage := store.programbreakTable slot / pageSize
  let newPage := max (endaddress / pageSize) pagLogInitHeap
  let npages := toUnsigned ((iniPage : Int) - newPage)
  let store ← countedLoop
    (fun i => releasePage table (toUnsigned ((iniPage : Int) - i))) 0 npages store
  if endaddress % pageSize = 0 then releasePage table newPage store else return store

def sbrk (dir : Word) (slot : DirSlot) (increment : Int) (store : PageStore) :
    Except Fault (PageStore × Option Nat) := do
  let endaddress := store.vars.endaddress slot increment
  let last := store.programbreakTable slot
  let endPage := toSigned endaddress / pageSize
  if 0 ≤ increment ∧ (endPage < pagLogInitHeap ∨ totalPages < endPage) then
    return (store, none)
  else
    let table := store.getPt dir
    if 0 < increment then
      match ← store.sbrkGrow table slot endaddress with
      | (store, false) => return (store, none)
      | (store, true) => return (store.withVars (store.vars.setBreak slot endaddress), some last)
    else if increment < 0 then
      let store ← store.sbrkShrink table slot endaddress
      let belowheap := endaddress / pageSize < pagLogInitHeap
      return (store.withVars
        (store.vars.setBreak slot (if belowheap then heapStart else endaddress)), some last)
    else
      return (store.withVars (store.vars.setBreak slot endaddress), some last)

end PageStore

/-! ## Words and tables -/

/-- The directory has the table for its first entry, and no other. -/
structure PagingLayout.Refers (layout : PagingLayout) (memory : ByteMap) (slot : DirSlot) :
    Prop where
  opens : ∀ access, Paging.Allows access (memory.load (entryAddress (layout.directory slot) 0))
  table : Paging.base (memory.load (entryAddress (layout.directory slot) 0)) = layout.table slot
  only : ∀ index, 0 < index → index < 1024 →
    Paging.present (memory.load (entryAddress (layout.directory slot) index)) = false

structure PagingLayout.Stores (layout : PagingLayout) (store : PageStore) (mm : Mm) : Prop where
  refers : ∀ slot, layout.Refers store.memory slot
  entries : ∀ slot page, page < totalPages →
    PageTableEntry.ofWord (store.memory.load (entryAddress (layout.table slot) page)) =
      mm.pagusrTable slot page
  physMem : store.physMem = mm.physMem
  dirCounter : store.dirCounter = mm.dirCounter
  programbreakTable : store.programbreakTable = mm.programbreakTable
  ram : store.ram = mm.ram

section Routines

variable {layout : PagingLayout} {store : PageStore} {mm : Mm} {slot : DirSlot} {page : Nat}

namespace PageStore

theorem modify_modify (store : PageStore) (address : Word) (first second : Word → Word) :
    (store.modify address first).modify address second =
      store.modify address fun word => second (first word) := by
  have again : ∀ before after, (store.memory.store address before).store address after =
      store.memory.store address after := by
    intro before after
    funext byte
    unfold ByteMap.store
    split <;> rfl
  rw [modify, modify, modify, ByteMap.load_store, again]

theorem load_modify_table (inside : page < 1024) {other : DirSlot} {index : Nat}
    (otherInside : index < 1024) (change : Word → Word) :
    (store.modify (entryAddress (layout.table slot) page) change).memory.load
        (entryAddress (layout.table other) index) =
      if other = slot ∧ index = page then
        change (store.memory.load (entryAddress (layout.table other) index))
      else store.memory.load (entryAddress (layout.table other) index) := by
  by_cases here : other = slot ∧ index = page
  · rw [if_pos here, here.1, here.2]
    exact ByteMap.load_store _ _ _
  · rw [if_neg here]
    exact ByteMap.load_store_apart _ (PagingLayout.tables_apart inside otherInside here)

theorem load_modify_kind (inside : page < 1024) {other : DirSlot} {index : Nat}
    (otherInside : index < 1024) (change : Word → Word) :
    (store.modify (entryAddress (layout.table slot) page) change).memory.load
        (entryAddress (layout.directory other) index) =
      store.memory.load (entryAddress (layout.directory other) index) :=
  ByteMap.load_store_apart _ (PagingLayout.kinds_apart inside otherInside)

end PageStore

theorem PagingLayout.Refers.congr {memory after : ByteMap} (refers : layout.Refers memory slot)
    (same : ∀ index, index < 1024 →
      after.load (entryAddress (layout.directory slot) index) =
        memory.load (entryAddress (layout.directory slot) index)) : layout.Refers after slot where
  opens := by
    rw [same 0 (by decide)]
    exact refers.opens
  table := by
    rw [same 0 (by decide)]
    exact refers.table
  only index positive inside := by
    rw [same index inside]
    exact refers.only index positive inside

namespace PagingLayout.Stores

theorem modify (stores : layout.Stores store mm) (inside : page < totalPages)
    {change : Word → Word} {entry : PageTableEntry}
    (changed : PageTableEntry.ofWord
      (change (store.memory.load (entryAddress (layout.table slot) page))) = entry) :
    layout.Stores (store.modify (entryAddress (layout.table slot) page) change)
      (mm.setEntry slot page entry) where
  refers other := (stores.refers other).congr fun index indexInside =>
    PageStore.load_modify_kind inside indexInside change
  entries other index indexInside := by
    rw [PageStore.load_modify_table inside indexInside]
    by_cases here : other = slot ∧ index = page
    · rcases here with ⟨sameSlot, samePage⟩
      subst sameSlot samePage
      rw [if_pos ⟨rfl, rfl⟩, changed]
      simp [Mm.setEntry]
    · rw [if_neg here, stores.entries other index indexInside]
      unfold Mm.setEntry
      by_cases sameSlot : other = slot
      · subst sameSlot
        have otherPage : index ≠ page := fun same => here ⟨rfl, same⟩
        simp [otherPage]
      · simp [sameSlot]
  physMem := stores.physMem
  dirCounter := stores.dirCounter
  programbreakTable := stores.programbreakTable
  ram := stores.ram

theorem withVars (stores : layout.Stores store mm) {later : Mm} (same : Mm)
    (tables : later.pagusrTable = mm.pagusrTable) (physMem : same.physMem = later.physMem)
    (dirCounter : same.dirCounter = later.dirCounter)
    (programbreakTable : same.programbreakTable = later.programbreakTable)
    (ram : same.ram = later.ram) : layout.Stores (store.withVars same) later where
  refers := stores.refers
  entries other index inside := by
    rw [tables]
    exact stores.entries other index inside
  physMem := physMem
  dirCounter := dirCounter
  programbreakTable := programbreakTable
  ram := ram

theorem vars_withTables (stores : layout.Stores store mm) : store.vars.withTables mm = mm := by
  rw [Mm.withTables, PageStore.vars, stores.physMem, stores.dirCounter, stores.ram]

theorem onVars {α : Type} (stores : layout.Stores store mm) {change : Mm → Mm × α}
    (blind : ∀ mm tables : Mm, change (mm.withTables tables) =
      ((change mm).1.withTables tables, (change mm).2)) :
    layout.Stores (store.onVars change).1 (change mm).1 ∧
      (store.onVars change).2 = (change mm).2 := by
  have commutes := blind store.vars mm
  rw [stores.vars_withTables] at commutes
  have own := blind store.vars store.vars
  have breaks : (change store.vars).1.programbreakTable = store.programbreakTable :=
    congrArg (fun result => result.1.programbreakTable) own
  rw [commutes]
  exact ⟨stores.withVars _ rfl rfl rfl (breaks.trans stores.programbreakTable) rfl, rfl⟩

theorem allocFrames (stores : layout.Stores store mm) (count : Nat) :
    layout.Stores (store.allocFrames count).1 (Mm.allocFrames count mm []).1 ∧
      (store.allocFrames count).2 = (Mm.allocFrames count mm []).2 :=
  stores.onVars fun mm tables => Mm.allocFrames_withTables count mm tables []

theorem allocFrame (stores : layout.Stores store mm) :
    layout.Stores store.allocFrame.1 mm.allocFrame.1 ∧
      store.allocFrame.2 = mm.allocFrame.2 := by
  apply stores.onVars
  intro mm tables
  unfold Mm.allocFrame
  have marks : (mm.withTables tables).physMem = mm.physMem := rfl
  rw [marks]
  cases Mm.allocScan mm.physMem totalPages numPagKernel with
  | none => rfl
  | some frame => rfl

theorem freeFrame (stores : layout.Stores store mm) (frame : Nat) :
    layout.Stores (store.freeFrame frame) (mm.freeFrame frame) := by
  have frees := @onVars layout store mm Unit stores (fun mm => (mm.freeFrame frame, ()))
    fun mm tables => by
      unfold Mm.freeFrame
      split <;> rfl
  exact frees.1

/-! ### Entries -/

theorem setSsPag (stores : layout.Stores store mm) (slot : DirSlot) (page frame : Nat) :
    Mmu.Erases layout.Stores (store.setSsPag (layout.table slot) page frame)
      (mm.setSsPag slot page frame) := by
  unfold PageStore.setSsPag Mm.setSsPag
  by_cases inside : page < totalPages
  · rw [if_pos inside, if_pos inside]
    apply Mmu.Erases.ok
    simp only [PageStore.modify_modify]
    apply stores.modify inside
    simp only [PageTableEntry.ofWord_putPresent, PageTableEntry.ofWord_putRw,
      PageTableEntry.ofWord_putUser, PageTableEntry.ofWord_putPbaseAddr, setWidth_ofNat]
    rfl
  · rw [if_neg inside, if_neg inside]
    exact ⟨.error _⟩

theorem delSsPag (stores : layout.Stores store mm) (slot : DirSlot) (page : Nat) :
    Mmu.Erases layout.Stores (store.delSsPag (layout.table slot) page)
      (mm.delSsPag slot page) := by
  unfold PageStore.delSsPag Mm.delSsPag
  by_cases inside : page < totalPages
  · rw [if_pos inside, if_pos inside]
    exact .ok (stores.modify inside rfl)
  · rw [if_neg inside, if_neg inside]
    exact ⟨.error _⟩

theorem getFrame (stores : layout.Stores store mm) (slot : DirSlot) (page : Nat) :
    store.getFrame (layout.table slot) page = mm.getFrame slot page := by
  unfold PageStore.getFrame Mm.getFrame
  by_cases inside : page < totalPages
  · rw [if_pos inside, if_pos inside, ← stores.entries slot page inside]
    rfl
  · rw [if_neg inside, if_neg inside]

theorem getPt (stores : layout.Stores store mm) (slot : DirSlot) :
    store.getPt (layout.directory slot) = layout.table slot := by
  rw [← (stores.refers slot).table, Paging.base_eq]
  unfold PageStore.getPt wordPbaseAddr
  apply BitVec.eq_of_getLsbD_eq
  intro bit inside
  rw [BitVec.getLsbD_shiftLeft, BitVec.getLsbD_shiftLeft, BitVec.getLsbD_setWidth,
    BitVec.getLsbD_extractLsb', BitVec.getLsbD_ushiftRight]
  by_cases low : bit < 12
  · simp [low]
  · have field : bit - 12 < 20 ∧ bit - 12 < 32 := by omega
    simp [low, field, inside]

end PagingLayout.Stores

/-! ### The processor's walk -/

def PageTableEntry.Allows (entry : PageTableEntry) (access : Access) : Prop :=
  entry.present = true ∧
    (access.user = true → entry.user = true ∧ (access.write = true → entry.rw = true))

instance pageAllowsDecidable (entry : PageTableEntry) (access : Access) :
    Decidable (entry.Allows access) :=
  inferInstanceAs (Decidable (_ ∧ _))

/-- The physical address behind a linear one, by the tables of memory management. -/
def Mm.physical (mm : Mm) (slot : DirSlot) (linear : Word) (access : Access) : Option Word :=
  if linear.toNat / pageSize < totalPages ∧
      (mm.pagusrTable slot (linear.toNat / pageSize)).Allows access then
    some (BitVec.ofNat 32 ((mm.pagusrTable slot (linear.toNat / pageSize)).pbaseAddr.toNat *
      pageSize + linear.toNat % pageSize))
  else none

theorem wordPbaseAddr_toNat (entry : Word) :
    (wordPbaseAddr entry).toNat = entry.toNat / 4096 := by
  have bounded := entry.isLt
  rw [wordPbaseAddr, BitVec.extractLsb'_toNat, Nat.shiftRight_eq_div_pow]
  omega

namespace PagingLayout.Stores

theorem directory_base : Paging.base (layout.directory slot) = layout.directory slot := by
  apply Paging.base_of_aligned
  have aligned := layout.dirPages_aligned
  have size : pageSize = 4096 := rfl
  rw [size] at aligned
  rw [PagingLayout.directory_toNat]
  omega

theorem directoryEntry (slot : DirSlot) (linear : Word) :
    Paging.directoryEntry (layout.directory slot) linear =
      entryAddress (layout.directory slot) (linear.toNat / 4194304) := by
  rw [Paging.directoryEntry, directory_base, entryAddress]
  congr 2
  apply BitVec.eq_of_toNat_eq
  have bounded := linear.isLt
  rw [Paging.table_toNat, BitVec.toNat_ofNat]
  omega

theorem tableEntry (stores : layout.Stores store mm) (slot : DirSlot) {linear : Word}
    (low : linear.toNat / 4096 < 1024) :
    Paging.tableEntry store.memory (layout.directory slot) linear =
      entryAddress (layout.table slot) (linear.toNat / 4096) := by
  have first : linear.toNat / 4194304 = 0 := by omega
  rw [Paging.tableEntry, directoryEntry, first, (stores.refers slot).table, entryAddress]
  congr 2
  apply BitVec.eq_of_toNat_eq
  have bounded := linear.isLt
  rw [Paging.page_toNat, BitVec.toNat_ofNat]
  omega

theorem walk (stores : layout.Stores store mm) (slot : DirSlot) (linear : Word)
    (access : Access) :
    Paging.walk store.memory (layout.directory slot) linear access =
      mm.physical slot linear access := by
  have sizes : pageSize = 4096 ∧ totalPages = 1024 := by decide
  have bounded := linear.isLt
  unfold Paging.walk Mm.physical
  rw [sizes.1, sizes.2]
  by_cases low : linear.toNat / 4096 < 1024
  · have first : linear.toNat / 4194304 = 0 := by omega
    have entry := stores.entries slot (linear.toNat / 4096) low
    rw [stores.tableEntry slot low, directoryEntry, first]
    generalize store.memory.load (entryAddress (layout.table slot) (linear.toNat / 4096)) = word
      at entry ⊢
    rw [← entry]
    have allowed : (Paging.Allows access (store.memory.load
          (entryAddress (layout.directory slot) 0)) ∧ Paging.Allows access word) ↔
        linear.toNat / 4096 < 1024 ∧ (PageTableEntry.ofWord word).Allows access :=
      ⟨fun both => ⟨low, both.2⟩, fun both => ⟨(stores.refers slot).opens access, both.2⟩⟩
    refine if_congr allowed (congrArg some ?_) rfl
    apply BitVec.eq_of_toNat_eq
    have wordBounded := word.isLt
    have field : (PageTableEntry.ofWord word).pbaseAddr.toNat = word.toNat / 4096 :=
      wordPbaseAddr_toNat word
    rw [BitVec.toNat_add, Paging.base_toNat, Paging.low_toNat, BitVec.toNat_ofNat, field]
  · have beyond : ¬Paging.Allows access (store.memory.load
        (entryAddress (layout.directory slot) (linear.toNat / 4194304))) := by
      intro allows
      have absent := (stores.refers slot).only (linear.toNat / 4194304) (by omega) (by omega)
      rw [allows.1] at absent
      cases absent
    rw [directoryEntry, if_neg fun both => beyond both.1, if_neg fun both => low both.1]

/-! ### Copies -/

theorem physical_kernel (mm : Mm) (slot : DirSlot) {address : Nat} (below : address < 4294967296)
    (write : Bool) :
    (∃ place, mm.translate slot address = .ok place ∧
        mm.physical slot (BitVec.ofNat 32 address) ⟨false, write⟩ =
          some (BitVec.ofNat 32 (place.1 * pageSize + place.2)) ∧
        (BitVec.ofNat 32 (place.1 * pageSize + place.2)).toNat / pageSize = place.1 ∧
        (BitVec.ofNat 32 (place.1 * pageSize + place.2)).toNat % pageSize = place.2) ∨
      mm.translate slot address = .error (.pageFault address) ∧
        mm.physical slot (BitVec.ofNat 32 address) ⟨false, write⟩ = none := by
  have same : (BitVec.ofNat 32 address).toNat = address := by
    rw [BitVec.toNat_ofNat]
    omega
  have size : pageSize = 4096 := rfl
  unfold Mm.translate Mm.physical
  rw [same]
  have supervisor : (mm.pagusrTable slot (address / pageSize)).Allows ⟨false, write⟩ ↔
      (mm.pagusrTable slot (address / pageSize)).present = true :=
    ⟨fun allows => allows.1, fun present => ⟨present, fun user => by cases user⟩⟩
  by_cases mapped : address / pageSize < totalPages ∧
      (mm.pagusrTable slot (address / pageSize)).present = true
  · left
    have frame := (mm.pagusrTable slot (address / pageSize)).pbaseAddr.isLt
    rw [if_pos mapped, if_pos (by rw [supervisor]; exact mapped)]
    refine ⟨_, rfl, rfl, ?_, ?_⟩
    · rw [BitVec.toNat_ofNat, size] at *
      omega
    · rw [BitVec.toNat_ofNat, size] at *
      omega
  · right
    rw [if_neg mapped, if_neg (by rw [supervisor]; exact mapped)]
    exact ⟨rfl, rfl⟩

theorem loadByte (stores : layout.Stores store mm) (slot : DirSlot) {address : Nat}
    (below : address < 4294967296) :
    PageStore.loadByte (layout.directory slot) store address = Mm.loadByte slot mm address := by
  unfold PageStore.loadByte Mm.loadByte
  rw [stores.walk, stores.ram]
  rcases physical_kernel mm slot below false with
    ⟨place, translated, physical, frame, offset⟩ | ⟨failed, fault⟩
  · rw [translated, physical]
    dsimp only
    rw [frame, offset]
    rfl
  · rw [failed, fault]
    rfl

theorem storeByte (stores : layout.Stores store mm) (slot : DirSlot) {address : Nat}
    (below : address < 4294967296) (byte : UInt8) :
    Mmu.Erases layout.Stores
      (PageStore.storeByte (layout.directory slot) store address byte)
      (Mm.storeByte slot mm address byte) := by
  unfold PageStore.storeByte Mm.storeByte
  rw [stores.walk, stores.ram]
  rcases physical_kernel mm slot below true with
    ⟨place, translated, physical, frame, offset⟩ | ⟨failed, fault⟩
  · rw [translated, physical]
    dsimp only
    rw [frame, offset, ok_bind]
    split
    · exact ⟨.error _⟩
    · exact .ok ⟨stores.refers, stores.entries, stores.physMem, stores.dirCounter,
        stores.programbreakTable, rfl⟩
  · rw [failed, fault]
    exact ⟨.error _⟩

theorem copyData (stores : layout.Stores store mm) (slot : DirSlot) {start dest : Nat} {size : Int}
    (sourceBelow : start + size.toNat ≤ 4294967296) (destBelow : dest + size.toNat ≤ 4294967296) :
    Mmu.Erases layout.Stores
      (store.copyData (layout.directory slot) start dest size)
      (mm.copyData slot start dest size) := by
  have mirrors : ByteMemory.Mirrors (PageStore.through (layout.directory slot)) (Mm.through slot)
      (fun _ => False) layout.Stores fun address => address < 4294967296 := by
    constructor
    · intro state result address related below
      have same := related.loadByte slot below
      change Refines _ _ (PageStore.loadByte _ state address) (Mm.loadByte slot result address)
      rw [same]
      cases Mm.loadByte slot result address with
      | error failure => exact .error failure
      | ok byte => exact .ok rfl
    · intro state result address byte related below
      exact (related.storeByte slot below byte).refines
  exact ⟨ByteMemory.copy_refines mirrors stores (fun offset inside => by omega)
    fun offset inside => by omega⟩

/-! ### Fork, exit and sbrk -/

theorem countedLoop {body : Nat → PageStore → Except Fault PageStore}
    {plain : Nat → Mm → Except Fault Mm}
    (each : ∀ index {store mm}, layout.Stores store mm →
      Mmu.Erases layout.Stores (body index store) (plain index mm))
    (start count : Nat) (stores : layout.Stores store mm) :
    Mmu.Erases layout.Stores (Foundation.countedLoop body start count store)
      (Foundation.countedLoop plain start count mm) :=
  ⟨.countedLoop (fun index _ _ related => (each index related).refines) start count stores⟩

theorem copyEntry (stores : layout.Stores store mm) (child father : DirSlot) (page : Nat) :
    Mmu.Erases layout.Stores
      (store.copyEntry (layout.table child) (layout.table father) page)
      (mm.copyEntry child father page) := by
  unfold PageStore.copyEntry Mm.copyEntry
  rw [stores.getFrame]
  cases mm.getFrame father page with
  | error failure => exact ⟨.error failure⟩
  | ok frame => exact stores.setSsPag child page frame

theorem forkShare (stores : layout.Stores store mm) (child father slot : DirSlot) :
    Mmu.Erases layout.Stores
      (store.forkShare (layout.table child) (layout.table father) slot)
      (mm.forkShare child father slot) := by
  have copies : ∀ page {store mm}, layout.Stores store mm → Mmu.Erases layout.Stores
      (PageStore.copyEntry (layout.table child) (layout.table father) page store)
      (Mm.copyEntry child father page mm) :=
    fun page _ _ related => related.copyEntry child father page
  unfold PageStore.forkShare Mm.forkShare
  apply (countedLoop copies pagLogInitCode numPagCode stores).bind
  intro code plainCode codeStores
  apply (countedLoop copies 0 numPagKernel codeStores).bind
  intro kernel plainKernel kernelStores
  have breaks : kernel.vars.programbreakPage slot = plainKernel.programbreakPage slot := by
    rw [Mm.programbreakPage, Mm.programbreakPage, ← kernelStores.programbreakTable]
    rfl
  rw [breaks]
  exact countedLoop copies _ _ kernelStores

theorem setSsPag_beyond {α β : Type} {Related : α → β → Prop} (store : PageStore) (mm : Mm)
    (slot : DirSlot) {page : Nat} (beyond : ¬page < totalPages) (frame : Nat)
    (next : PageStore → Except Fault α) (plainNext : Mm → Except Fault β) :
    Mmu.Erases Related
      (store.setSsPag (layout.table slot) page frame >>= next)
      (mm.setSsPag slot page frame >>= plainNext) := by
  unfold PageStore.setSsPag Mm.setSsPag
  rw [if_neg beyond, if_neg beyond]
  exact ⟨.error _⟩

theorem forkCopyPage (stores : layout.Stores store mm) (child father : DirSlot)
    (heapPages : Int) (frames : List Nat) (i : Nat) :
    Mmu.Erases layout.Stores
      (store.forkCopyPage (layout.table child) (layout.table father) (layout.directory father)
        heapPages frames i)
      (mm.forkCopyPage child father heapPages frames i) := by
  have sizes : totalPages = 1024 ∧ pageSize = 4096 := by decide
  have page : ((pageSize : Nat) : Int).toNat = 4096 := rfl
  unfold PageStore.forkCopyPage Mm.forkCopyPage
  generalize toUnsigned (pagLogInitData + numPagData + heapPages + i) = window
  dsimp only
  by_cases pageInside : pagLogInitData + i < totalPages
  · apply (stores.setSsPag child _ _).bind
    intro mapped plainMapped mappedStores
    by_cases windowInside : window < totalPages
    · apply (mappedStores.setSsPag father _ _).bind
      intro opened plainOpened openedStores
      rw [sizes.1] at pageInside windowInside
      apply (openedStores.copyData father _ _).bind
      · intro copied plainCopied copiedStores
        exact copiedStores.delSsPag father window
      · rw [page, sizes.2]
        omega
      · rw [page, sizes.2]
        omega
    · exact setSsPag_beyond _ _ _ windowInside _ _ _
  · exact setSsPag_beyond _ _ _ pageInside _ _ _

/-- The stores and the other results of two computations correspond. -/
def With (layout : PagingLayout) {α : Type} (outcome : PageStore × α) (plain : Mm × α) : Prop :=
  layout.Stores outcome.1 plain.1 ∧ outcome.2 = plain.2

theorem forkPages (stores : layout.Stores store mm) (child father slot : DirSlot) :
    Mmu.Erases (With layout)
      (store.forkPages (layout.directory child) (layout.directory father) slot)
      (mm.forkPages child father slot) := by
  unfold PageStore.forkPages Mm.forkPages
  rw [stores.getPt, stores.getPt]
  dsimp only
  apply (stores.forkShare child father slot).bind
  intro shared plain sharedStores
  have heap : shared.vars.pagHeap slot = plain.pagHeap slot := by
    rw [Mm.pagHeap, Mm.pagHeap, Mm.programbreakPage, Mm.programbreakPage,
      ← sharedStores.programbreakTable]
    rfl
  rw [heap]
  generalize (numPagData + plain.pagHeap slot).toNat = count
  rcases sharedStores.allocFrames count with ⟨allocated, same⟩
  generalize shared.allocFrames count = outcome at allocated same ⊢
  generalize Mm.allocFrames count plain [] = plainOutcome at allocated same ⊢
  rcases outcome with ⟨middle, result⟩
  rcases plainOutcome with ⟨plainMiddle, plainResult⟩
  cases same
  cases result with
  | none => exact .ok ⟨allocated, rfl⟩
  | some frames =>
      have copies := countedLoop (fun i store mm related =>
        (forkCopyPage related child father (plain.pagHeap slot) frames i)) 0 count allocated
      exact copies.bind fun copied plainCopied copiedStores => .ok ⟨copiedStores, rfl⟩

theorem releasePage (stores : layout.Stores store mm) (slot : DirSlot) (page : Nat) :
    Mmu.Erases layout.Stores (store.releasePage (layout.table slot) page)
      (mm.releasePage slot page) := by
  unfold PageStore.releasePage Mm.releasePage
  rw [stores.getFrame]
  cases mm.getFrame slot page with
  | error failure => exact ⟨.error failure⟩
  | ok frame => exact (stores.freeFrame frame).delSsPag slot page

theorem releasePages (pages : Nat → Nat) (slot : DirSlot) (start count : Nat)
    (stores : layout.Stores store mm) :
    Mmu.Erases layout.Stores
      (Foundation.countedLoop (fun i => PageStore.releasePage (layout.table slot) (pages i))
        start count store)
      (Foundation.countedLoop (fun i => Mm.releasePage slot (pages i)) start count mm) :=
  countedLoop (fun i _ _ related => related.releasePage slot (pages i)) start count stores

theorem freeUserPages (stores : layout.Stores store mm) (pt slot : DirSlot) :
    Mmu.Erases layout.Stores (store.freeUserPages (layout.directory pt) slot)
      (mm.freeUserPages pt slot) := by
  unfold PageStore.freeUserPages Mm.freeUserPages
  rw [stores.getPt]
  dsimp only
  apply (releasePages id pt _ _ stores).bind
  intro data plain dataStores
  rw [dataStores.programbreakTable]
  exact releasePages id pt _ _ dataStores

theorem releaseDir (stores : layout.Stores store mm) (pt slot : DirSlot) :
    Mmu.Erases layout.Stores (store.releaseDir layout (layout.directory pt) slot)
      (mm.releaseDir pt slot) := by
  unfold PageStore.releaseDir Mm.releaseDir
  rw [PagingLayout.pos_directory, stores.dirCounter]
  dsimp only
  generalize counted : Function.update mm.dirCounter pt (mm.dirCounter pt - 1) = counters
  have released : layout.Stores { store with dirCounter := counters }
      { mm with dirCounter := counters } :=
    ⟨stores.refers, stores.entries, stores.physMem, rfl, stores.programbreakTable, stores.ram⟩
  split
  · exact released.freeUserPages pt slot
  · exact .ok released

theorem sbrkGrow (stores : layout.Stores store mm) (pt slot : DirSlot) (endaddress : Nat) :
    Mmu.Erases (With layout) (store.sbrkGrow (layout.table pt) slot endaddress)
      (mm.sbrkGrow pt slot endaddress) := by
  unfold PageStore.sbrkGrow Mm.sbrkGrow
  rw [stores.programbreakTable]
  generalize Mm.sbrkGrowth (mm.programbreakTable slot) endaddress = growth
  rcases growth with ⟨npages, tpentry⟩
  dsimp only
  split
  · exact ⟨.error _⟩
  · rcases stores.allocFrames npages with ⟨allocated, same⟩
    generalize store.allocFrames npages = outcome at allocated same ⊢
    generalize Mm.allocFrames npages mm [] = plainOutcome at allocated same ⊢
    rcases outcome with ⟨middle, result⟩
    rcases plainOutcome with ⟨plainMiddle, plainResult⟩
    cases same
    cases result with
    | none => exact .ok ⟨allocated, rfl⟩
    | some frames =>
        dsimp only
        split
        · exact ⟨.error _⟩
        · have maps := countedLoop (fun i store mm related =>
            setSsPag related pt (tpentry + i) (frames.getD i 0)) 0 npages allocated
          exact maps.bind fun mapped plainMapped mappedStores => .ok ⟨mappedStores, rfl⟩

theorem sbrkShrink (stores : layout.Stores store mm) (pt slot : DirSlot) (endaddress : Nat) :
    Mmu.Erases layout.Stores (store.sbrkShrink (layout.table pt) slot endaddress)
      (mm.sbrkShrink pt slot endaddress) := by
  unfold PageStore.sbrkShrink Mm.sbrkShrink
  rw [stores.programbreakTable]
  dsimp only
  apply (releasePages _ pt _ _ stores).bind
  intro released plain releasedStores
  split
  · exact releasedStores.releasePage pt _
  · exact .ok releasedStores

theorem setBreak (stores : layout.Stores store mm) (slot : DirSlot) (address : Nat) :
    layout.Stores (store.withVars (store.vars.setBreak slot address))
      (mm.setBreak slot address) := by
  refine stores.withVars _ rfl stores.physMem stores.dirCounter ?_ stores.ram
  exact congrArg (fun breaks => Function.update breaks slot address) stores.programbreakTable

theorem sbrk (stores : layout.Stores store mm) (pt slot : DirSlot) (increment : Int) :
    Mmu.Erases (With layout) (store.sbrk (layout.directory pt) slot increment)
      (mm.sbrk pt slot increment) := by
  have address : store.vars.endaddress slot increment = mm.endaddress slot increment := by
    rw [Mm.endaddress, Mm.endaddress, ← stores.programbreakTable]
    rfl
  unfold PageStore.sbrk Mm.sbrk
  rw [address, stores.programbreakTable, stores.getPt]
  dsimp only
  split
  · exact .ok ⟨stores, rfl⟩
  · split
    · apply (stores.sbrkGrow pt slot _).bind
      intro outcome plainOutcome related
      rcases outcome with ⟨grown, allocated⟩
      rcases plainOutcome with ⟨plain, plainAllocated⟩
      rcases related with ⟨grownStores, same⟩
      cases same
      cases allocated with
      | false => exact .ok ⟨grownStores, rfl⟩
      | true => exact .ok ⟨setBreak grownStores slot _, rfl⟩
    · split
      · apply (stores.sbrkShrink pt slot _).bind
        intro shrunk plain shrunkStores
        exact .ok ⟨setBreak shrunkStores slot _, rfl⟩
      · exact .ok ⟨stores.setBreak slot _, rfl⟩

end PagingLayout.Stores

/-! ### Start-up -/

/-- Every entry of one table is changed, and nothing else. -/
structure Rewrites (layout : PagingLayout) (slot : DirSlot) (store after : PageStore)
    (change : Nat → Word → Word) : Prop where
  here : ∀ index, index < 1024 → after.memory.load (entryAddress (layout.table slot) index) =
    change index (store.memory.load (entryAddress (layout.table slot) index))
  others : ∀ other index, other ≠ slot → index < 1024 →
    after.memory.load (entryAddress (layout.table other) index) =
      store.memory.load (entryAddress (layout.table other) index)
  directories : ∀ other index, index < 1024 →
    after.memory.load (entryAddress (layout.directory other) index) =
      store.memory.load (entryAddress (layout.directory other) index)
  vars : after.vars = store.vars

namespace Rewrites

variable {middle after : PageStore} {first second : Nat → Word → Word}

theorem trans (one : Rewrites layout slot store middle first)
    (two : Rewrites layout slot middle after second) :
    Rewrites layout slot store after fun index word => second index (first index word) where
  here index inside := by rw [two.here index inside, one.here index inside]
  others other index different inside := by
    rw [two.others other index different inside, one.others other index different inside]
  directories other index inside := by
    rw [two.directories other index inside, one.directories other index inside]
  vars := two.vars.trans one.vars

theorem modify (store : PageStore) (slot : DirSlot) (inside : page < 1024)
    (change : Word → Word) :
    Rewrites layout slot store (store.modify (entryAddress (layout.table slot) page) change)
      fun index word => if index = page then change word else word where
  here index indexInside := by
    rw [PageStore.load_modify_table inside indexInside]
    exact if_congr (and_iff_right rfl) rfl rfl
  others other index different indexInside := by
    rw [PageStore.load_modify_table inside indexInside, if_neg fun both => different both.1]
  directories other index indexInside := PageStore.load_modify_kind inside indexInside change
  vars := rfl

theorem forPages {body : Nat → PageStore → PageStore} {change : Nat → Word → Word}
    (each : ∀ page store, page < 1024 → Rewrites layout slot store (body page store)
      fun index word => if index = page then change page word else word)
    (start count : Nat) (fits : start + count ≤ 1024) (store : PageStore) :
    Rewrites layout slot store (PageStore.forPages body start count store) fun index word =>
      if start ≤ index ∧ index < start + count then change index word else word := by
  induction count generalizing start store with
  | zero =>
      have none : ∀ index, ¬(start ≤ index ∧ index < start + 0) := fun index => by omega
      constructor
      · intro index inside
        rw [if_neg (none index)]
        rfl
      · exact fun _ _ _ _ => rfl
      · exact fun _ _ _ => rfl
      · rfl
  | succ count induction =>
      have whole := (each start store (by omega)).trans
        (induction (start + 1) (by omega) (body start store))
      refine ⟨fun index inside => ?_, whole.others, whole.directories, whole.vars⟩
      rw [PageStore.forPages, whole.here index inside]
      by_cases first : index = start
      · subst first
        rw [if_neg (by omega), if_pos rfl, if_pos (by omega)]
      · rw [if_neg first]
        exact if_congr (by omega) rfl rfl

end Rewrites

theorem ofWord_kernelPage (page : Nat) :
    PageTableEntry.ofWord (putPresent true (putRw true (putPbaseAddr (BitVec.ofNat 32 page) 0))) =
      ⟨true, true, false, BitVec.ofNat 20 page⟩ := by
  rw [PageTableEntry.ofWord_putPresent, PageTableEntry.ofWord_putRw,
    PageTableEntry.ofWord_putPbaseAddr, setWidth_ofNat]
  change (⟨true, true, (PageTableEntry.ofWord 0#32).user, _⟩ : PageTableEntry) = _
  rw [PageTableEntry.ofWord_zero]
  rfl

theorem initTable_rewrites (machine : Machine) (slot : DirSlot) (store : PageStore) :
    ∃ change, Rewrites layout slot store (store.initTable machine (layout.table slot)) change ∧
      ∀ index word, index < 1024 →
        PageTableEntry.ofWord (change index word) = machine.initialEntry index := by
  have above : machine.protectedTasks + 11 < 256 := machine.protectedTasks_lt
  have cleared := @Rewrites.forPages layout slot _ _
    (fun page store inside => Rewrites.modify store slot inside fun _ => 0) 0 1024
    (by decide) store
  have kernel := fun store => @Rewrites.forPages layout slot
    (fun page store => ((store.modify (entryAddress (layout.table slot) page)
      (putPbaseAddr (BitVec.ofNat 32 page))).modify (entryAddress (layout.table slot) page)
        (putRw true)).modify (entryAddress (layout.table slot) page) (putPresent true))
    (fun page word => putPresent true (putRw true (putPbaseAddr (BitVec.ofNat 32 page) word)))
    (fun page store inside => by
      rw [PageStore.modify_modify, PageStore.modify_modify]
      exact Rewrites.modify store slot inside _) 1 255 (by decide) store
  have below := fun store => @Rewrites.modify layout machine.protectedTasks store slot (by omega)
    (putPresent false)
  have after := fun store => @Rewrites.modify layout (machine.protectedTasks + 11) store slot
    (by omega) (putPresent false)
  refine ⟨_, ((cleared.trans (kernel _)).trans (below _)).trans (after _), ?_⟩
  intro index word inside
  have whole : 0 ≤ index ∧ index < 0 + 1024 := by omega
  rw [if_pos whole]
  unfold Machine.initialEntry
  have limit : numPagKernel = 256 := rfl
  rw [limit]
  by_cases mapped : 1 ≤ index ∧ index < 1 + 255
  · have notEnds : ¬(index = 0 ∨ 256 ≤ index) := by omega
    rw [if_pos mapped, if_neg notEnds]
    by_cases low : index = machine.protectedTasks
    · have notHigh : index ≠ machine.protectedTasks + 11 := by omega
      rw [if_neg notHigh, if_pos low, if_pos (Or.inl low), PageTableEntry.ofWord_putPresent,
        ofWord_kernelPage]
    · by_cases high : index = machine.protectedTasks + 11
      · rw [if_pos high, if_neg low, if_pos (Or.inr high), PageTableEntry.ofWord_putPresent,
          ofWord_kernelPage]
      · rw [if_neg high, if_neg low, if_neg (not_or.mpr ⟨low, high⟩), ofWord_kernelPage]
  · have ends : index = 0 ∨ 256 ≤ index := by omega
    have notLow : index ≠ machine.protectedTasks := by
      have positive := machine.protectedTasks_pos
      omega
    have notHigh : index ≠ machine.protectedTasks + 11 := by omega
    rw [if_neg mapped, if_neg notHigh, if_neg notLow, if_pos ends]
    exact PageTableEntry.ofWord_zero

structure TablesReady (layout : PagingLayout) (machine : Machine) (slots : List DirSlot)
    (store after : PageStore) : Prop where
  ready : ∀ slot index, slot ∈ slots → index < 1024 → PageTableEntry.ofWord
    (after.memory.load (entryAddress (layout.table slot) index)) = machine.initialEntry index
  others : ∀ slot index, slot ∉ slots → index < 1024 →
    after.memory.load (entryAddress (layout.table slot) index) =
      store.memory.load (entryAddress (layout.table slot) index)
  directories : ∀ slot index, index < 1024 →
    after.memory.load (entryAddress (layout.directory slot) index) =
      store.memory.load (entryAddress (layout.directory slot) index)
  vars : after.vars = store.vars

theorem initTables_ready (machine : Machine) (slots : List DirSlot) (store : PageStore) :
    TablesReady layout machine slots store
      (slots.foldl (fun store slot => store.initTable machine (layout.table slot)) store) := by
  induction slots generalizing store with
  | nil =>
      constructor
      · exact fun _ _ member => by cases member
      · exact fun _ _ _ _ => rfl
      · exact fun _ _ _ => rfl
      · rfl
  | cons first slots induction =>
      rcases @initTable_rewrites layout machine first store with ⟨change, rewrites, initial⟩
      have later := induction (store.initTable machine (layout.table first))
      rw [List.foldl_cons]
      constructor
      · intro slot index member inside
        by_cases again : slot ∈ slots
        · exact later.ready slot index again inside
        · have here : slot = first := (List.mem_cons.mp member).resolve_right again
          rw [later.others slot index again inside, here, rewrites.here index inside]
          exact initial index _ inside
      · intro slot index absent inside
        rw [List.mem_cons, not_or] at absent
        rw [later.others slot index absent.2 inside, rewrites.others slot index absent.1 inside]
      · intro slot index inside
        rw [later.directories slot index inside, rewrites.directories slot index inside]
      · exact later.vars.trans rewrites.vars

/-- The first entry of a directory as `init_dir_pages` leaves it. -/
def dirWord (table : Word) : Word :=
  putPresent true (putRw true (putUser true (putPbaseAddr (table >>> 12) 0)))

theorem initDir_eq (dir table : Word) (store : PageStore) :
    store.initDir dir table = store.modify (entryAddress dir 0) fun _ => dirWord table := by
  unfold PageStore.initDir dirWord
  simp only [PageStore.modify_modify]

theorem allows_dirWord (table : Word) (access : Access) :
    Paging.Allows access (dirWord table) := by
  have fields : PageTableEntry.ofWord (dirWord table) =
      ⟨true, true, true, (table >>> 12).setWidth 20⟩ := by
    simp [dirWord]
  rw [PageTableEntry.mk.injEq] at fields
  exact ⟨fields.1, fun _ => ⟨fields.2.2.1, fun _ => fields.2.1⟩⟩

theorem base_dirWord {table : Word} (aligned : table.toNat % 4096 = 0) :
    Paging.base (dirWord table) = table := by
  have field : wordPbaseAddr (dirWord table) = (table >>> 12).setWidth 20 := by
    have fields : PageTableEntry.ofWord (dirWord table) =
        ⟨true, true, true, (table >>> 12).setWidth 20⟩ := by
      simp [dirWord]
    exact congrArg PageTableEntry.pbaseAddr fields
  have number := congrArg BitVec.toNat field
  have bounded := table.isLt
  rw [wordPbaseAddr_toNat, BitVec.toNat_setWidth, BitVec.toNat_ushiftRight,
    Nat.shiftRight_eq_div_pow] at number
  apply BitVec.eq_of_toNat_eq
  rw [Paging.base_toNat, number]
  omega

theorem load_initDir_table (store : PageStore) (slot other : DirSlot) {index : Nat}
    (inside : index < 1024) :
    (store.initDir (layout.directory slot) (layout.table slot)).memory.load
        (entryAddress (layout.table other) index) =
      store.memory.load (entryAddress (layout.table other) index) := by
  rw [initDir_eq]
  exact ByteMap.load_store_apart _ (PagingLayout.kinds_apart inside (by decide)).symm

theorem load_initDir (store : PageStore) (slot other : DirSlot) {index : Nat}
    (inside : index < 1024) :
    (store.initDir (layout.directory slot) (layout.table slot)).memory.load
        (entryAddress (layout.directory other) index) =
      if other = slot ∧ index = 0 then dirWord (layout.table slot)
      else store.memory.load (entryAddress (layout.directory other) index) := by
  rw [initDir_eq]
  by_cases here : other = slot ∧ index = 0
  · rw [if_pos here, here.1, here.2]
    exact ByteMap.load_store _ _ _
  · rw [if_neg here]
    exact ByteMap.load_store_apart _ (PagingLayout.directories_apart (by decide) inside here)

structure DirsReady (layout : PagingLayout) (slots : List DirSlot) (store after : PageStore) :
    Prop where
  ready : ∀ slot, slot ∈ slots →
    after.memory.load (entryAddress (layout.directory slot) 0) = dirWord (layout.table slot)
  others : ∀ slot index, index < 1024 → slot ∉ slots ∨ 0 < index →
    after.memory.load (entryAddress (layout.directory slot) index) =
      store.memory.load (entryAddress (layout.directory slot) index)
  tables : ∀ slot index, index < 1024 →
    after.memory.load (entryAddress (layout.table slot) index) =
      store.memory.load (entryAddress (layout.table slot) index)
  vars : after.vars = store.vars

theorem initDirs_ready (slots : List DirSlot) (store : PageStore) :
    DirsReady layout slots store (slots.foldl (fun store slot =>
      store.initDir (layout.directory slot) (layout.table slot)) store) := by
  induction slots generalizing store with
  | nil =>
      constructor
      · exact fun _ member => by cases member
      · exact fun _ _ _ _ => rfl
      · exact fun _ _ _ => rfl
      · rfl
  | cons first slots induction =>
      have later := induction (store.initDir (layout.directory first) (layout.table first))
      rw [List.foldl_cons]
      constructor
      · intro slot member
        by_cases again : slot ∈ slots
        · exact later.ready slot again
        · have here : slot = first := (List.mem_cons.mp member).resolve_right again
          rw [later.others slot 0 (by decide) (.inl again), load_initDir _ _ _ (by decide),
            if_pos ⟨here, rfl⟩, here]
      · intro slot index inside apart
        have notHere : ¬(slot = first ∧ index = 0) := by
          intro both
          rcases apart with absent | positive
          · exact absent (both.1 ▸ List.mem_cons_self)
          · exact Nat.ne_of_gt positive both.2
        have stays : slot ∉ slots ∨ 0 < index :=
          apart.imp_left fun absent member => absent (List.mem_cons_of_mem _ member)
        rw [later.others slot index inside stays, load_initDir _ _ _ inside, if_neg notHere]
      · intro slot index inside
        rw [later.tables slot index inside, load_initDir_table _ _ _ inside]
      · rw [later.vars, initDir_eq]
        rfl

/-- The memory of the linked image, in which the directories are zero. -/
def PagingLayout.Blank (layout : PagingLayout) (memory : ByteMap) : Prop :=
  ∀ slot index, index < 1024 → memory.load (entryAddress (layout.directory slot) index) = 0

theorem table_aligned : (layout.table slot).toNat % 4096 = 0 := by
  have aligned := layout.pagusrTable_aligned
  have size : pageSize = 4096 := rfl
  rw [size] at aligned
  rw [PagingLayout.table_toNat]
  omega

theorem vars_fields {store : PageStore} {mm : Mm}
    (same : store.vars = { mm with pagusrTable := fun _ _ => .zero }) :
    store.physMem = mm.physMem ∧ store.dirCounter = mm.dirCounter ∧
      store.programbreakTable = mm.programbreakTable ∧ store.ram = mm.ram :=
  ⟨congrArg Mm.physMem same, congrArg Mm.dirCounter same, congrArg Mm.programbreakTable same,
    congrArg Mm.ram same⟩

theorem initPages_stores (machine : Machine) (blank : layout.Blank store.memory)
    (vars : store.vars = { machine.initialMm with pagusrTable := fun _ _ => .zero }) :
    layout.Stores ((store.initTablePages machine layout).initDirPages layout)
      machine.initialMm := by
  have tables : TablesReady layout machine (List.finRange nrTasks) store
    (store.initTablePages machine layout) := initTables_ready machine _ store
  have directories : DirsReady layout (List.finRange nrTasks)
    (store.initTablePages machine layout)
    ((store.initTablePages machine layout).initDirPages layout) := initDirs_ready _ _
  rcases vars_fields ((directories.vars.trans tables.vars).trans vars) with
    ⟨physMem, dirCounter, programbreakTable, ram⟩
  refine ⟨?_, ?_, physMem, dirCounter, programbreakTable, ram⟩
  · intro slot
    have first := directories.ready slot (List.mem_finRange slot)
    constructor
    · intro access
      rw [first]
      exact allows_dirWord _ access
    · rw [first]
      exact base_dirWord table_aligned
    · intro index positive inside
      rw [directories.others slot index inside (.inr positive),
        tables.directories slot index inside, blank slot index inside]
      rfl
  · intro slot page inside
    rw [directories.tables slot page inside]
    exact tables.ready slot page (List.mem_finRange slot) inside

theorem frameWord_field (frame : Option Nat) :
    (PageStore.frameWord frame).setWidth 20 = Mm.frameField frame := by
  cases frame with
  | none => decide
  | some frame => exact setWidth_ofNat frame

namespace PagingLayout.Stores

theorem mapFreshPages (stores : layout.Stores store mm) (rw : Bool) (slot : DirSlot)
    {count page : Nat} (inside : page + count ≤ totalPages) :
    layout.Stores (PageStore.mapFreshPages rw (layout.table slot) count page store)
      (Mm.mapFreshPages rw slot count page mm) := by
  induction count generalizing page store mm with
  | zero => exact stores
  | succ count induction =>
      rcases stores.allocFrame with ⟨allocated, same⟩
      unfold PageStore.mapFreshPages Mm.mapFreshPages
      generalize store.allocFrame = outcome at allocated same ⊢
      generalize mm.allocFrame = plain at allocated same ⊢
      rcases outcome with ⟨taken, frame⟩
      rcases plain with ⟨plainTaken, plainFrame⟩
      cases same
      dsimp only
      have inTable : page < totalPages := by omega
      have entry : layout.Stores
          ((if rw = true then
            (((taken.modify (entryAddress (layout.table slot) page) fun _ => 0).modify
              (entryAddress (layout.table slot) page)
                (putPbaseAddr (PageStore.frameWord frame))).modify
              (entryAddress (layout.table slot) page) (putUser true)).modify
              (entryAddress (layout.table slot) page) (putRw true)
          else
            ((taken.modify (entryAddress (layout.table slot) page) fun _ => 0).modify
              (entryAddress (layout.table slot) page)
                (putPbaseAddr (PageStore.frameWord frame))).modify
              (entryAddress (layout.table slot) page) (putUser true)).modify
            (entryAddress (layout.table slot) page) (putPresent true))
          (plainTaken.setEntry slot page ⟨true, rw, true, Mm.frameField frame⟩) := by
        cases rw with
        | false =>
            rw [if_neg Bool.false_ne_true]
            simp only [PageStore.modify_modify]
            apply allocated.modify inTable
            simp [frameWord_field, PageTableEntry.zero]
        | true =>
            rw [if_pos rfl]
            simp only [PageStore.modify_modify]
            apply allocated.modify inTable
            simp [frameWord_field, PageTableEntry.zero]
      exact induction entry (by omega)

theorem setUserPages (stores : layout.Stores store mm) (slot : DirSlot) :
    layout.Stores (store.setUserPages (layout.directory slot)) (mm.setUserPages slot) := by
  unfold PageStore.setUserPages Mm.setUserPages
  rw [stores.getPt]
  exact (stores.mapFreshPages false slot (by decide)).mapFreshPages true slot (by decide)

theorem allocateDir (stores : layout.Stores store mm) :
    layout.Stores (store.onVars Mm.allocateDir).1 mm.allocateDir.1 ∧
      (store.onVars Mm.allocateDir).2 = mm.allocateDir.2 := by
  apply stores.onVars
  intro mm tables
  unfold Mm.allocateDir
  have slots : (mm.withTables tables).freeSlot = mm.freeSlot := rfl
  rw [slots]
  cases mm.freeSlot with
  | none => rfl
  | some slot => rfl

end PagingLayout.Stores

end Routines

/-- The directories of `task[0]`, the idle task and task 1, and the user pages of task 1. -/
def PageStore.bootTasks (layout : PagingLayout) (store : PageStore) : PageStore :=
  let (store, _) := store.onVars Mm.allocateDir
  let (store, _) := store.onVars Mm.allocateDir
  let (store, slot) := store.onVars Mm.allocateDir
  let slot := slot.getD 0
  let store := store.setUserPages (layout.directory slot)
  store.withVars (store.vars.setBreak slot heapStart)

def PageStore.boot (machine : Machine) (layout : PagingLayout) (memory : ByteMap) : PageStore :=
  let store : PageStore := ⟨memory, initialMark, fun _ => 0, fun _ => 0, machine.ram⟩
  ((store.initTablePages machine layout).initDirPages layout).bootTasks layout

theorem bootTasks_stores {layout : PagingLayout} {store : PageStore} {mm later : Mm}
    {slot : DirSlot} (stores : layout.Stores store mm)
    (thrice : mm.allocateDir.1.allocateDir.1.allocateDir = (later, some slot)) :
    layout.Stores (store.bootTasks layout) ((later.setUserPages slot).setBreak slot heapStart) := by
  rcases stores.allocateDir.1.allocateDir.1.allocateDir with ⟨taken, found⟩
  rw [thrice] at taken found
  unfold PageStore.bootTasks
  dsimp only
  rw [found]
  exact (taken.setUserPages slot).setBreak slot heapStart

theorem allocateDir_thrice (machine : Machine) :
    machine.initialMm.allocateDir.1.allocateDir.1.allocateDir =
      ({ machine.initialMm with dirCounter := fun slot => if slot.val ≤ 2 then 1 else 0 },
        some 2) := by
  have counters : (fun slot : DirSlot => if slot.val ≤ 2 then (1 : Int) else 0) =
      Function.update (Function.update (Function.update (fun _ => 0) 0 1) 1 1) 2 1 := by
    funext slot
    fin_cases slot <;> rfl
  rw [counters]
  rfl

theorem boot_stores (machine : Machine) (layout : PagingLayout) {memory : ByteMap}
    (blank : layout.Blank memory) :
    layout.Stores (PageStore.boot machine layout memory) (machine.bootCore 0 1).mm := by
  have started := @initPages_stores layout
    ⟨memory, initialMark, fun _ => 0, fun _ => 0, machine.ram⟩ machine blank rfl
  rw [bootCore_mm]
  exact bootTasks_stores started (allocateDir_thrice machine)

end Zeos
