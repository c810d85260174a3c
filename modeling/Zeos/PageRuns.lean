import Zeos.PageWords
import Zeos.Protection
import Zeos.Translation

/-! # Page tables in memory over a run

The kernel together with the words of its page tables, which every step writes as the
source does and the processor marks as it likes. At every point of a run the processor
translates as the tables of memory management say, and in every directory the kernel's
own pages, and with them the tables, are where they are in memory.
-/

namespace Zeos

open Foundation Kernel

def PageStore.of (memory : ByteMap) (mm : Mm) : PageStore :=
  ⟨memory, mm.physMem, mm.dirCounter, mm.programbreakTable, mm.ram⟩

def Kernel.wordTables {σ : Type} [ListOps σ Queue TaskId] (kernel : Kernel σ)
    (layout : PagingLayout) (event : Event) (store : PageStore) : Except Fault PageStore :=
  let task := kernel.currentTask
  let dir := layout.directory task.dirPagesBaseAddr
  match event with
  | .fork =>
      if kernel.isEmpty .freequeue then .ok store
      else do
        let (store, slot) := store.onVars Mm.allocateDir
        let child := layout.directory (slot.getD task.dirPagesBaseAddr)
        let (store, _) ← store.forkPages child dir task.posInDirCounter
        return store
  | .exit => store.releaseDir layout dir task.posInDirCounter
  | .sbrk amount => do
      let (store, _) ← store.sbrk dir task.posInDirCounter amount
      return store
  | _ => .ok store

/-- The kernel and the memory that its page tables are in. -/
structure Worded where
  kernel : PointerKernel
  memory : ByteMap

inductive Marked (layout : PagingLayout) (memory : ByteMap) : ByteMap → Prop
  | none : Marked layout memory memory
  | access {marked : ByteMap} (earlier : Marked layout memory marked) (slot : DirSlot)
      (linear : Word) (access : Access) :
      Marked layout memory (Paging.mark marked (layout.directory slot) linear access)

/-- ZeOS with its page tables in memory. The processor's marks come at the end of a step. -/
def wordedZeos (machine : Machine) (layout : PagingLayout) : TransitionSystem Worded Event where
  init state := (zeos machine).init state.kernel ∧ ∃ memory, layout.Blank memory ∧
    state.memory = (PageStore.boot machine layout memory).memory
  step before event after := (zeos machine).step before.kernel event after.kernel ∧
    ∃ written, before.kernel.wordTables layout event
        (.of before.memory before.kernel.core.mm) = .ok written ∧
      Marked layout written.memory after.memory

section Marks

variable {layout : PagingLayout} {store : PageStore} {mm later : Mm} {slot : DirSlot}
  {memory after : ByteMap}

theorem Marked.sameEntries (marked : Marked layout memory after) :
    Paging.SameEntries memory after := by
  induction marked with
  | none => exact .refl memory
  | access earlier slot linear access induction =>
      exact induction.trans (Paging.mark_same _ _ _ _)

theorem ofWord_congr {entry other : Word} (same : Paging.unmarked other = Paging.unmarked entry) :
    PageTableEntry.ofWord other = PageTableEntry.ofWord entry := by
  have bits : ∀ bit, bit < 5 → other.getLsbD bit = entry.getLsbD bit := by
    intro bit low
    rw [← Paging.getLsbD_unmarked other low, same, Paging.getLsbD_unmarked entry low]
  have field : wordPbaseAddr other = wordPbaseAddr entry := by
    have bases := congrArg BitVec.toNat (Paging.base_congr same)
    rw [Paging.base_toNat, Paging.base_toNat] at bases
    apply BitVec.eq_of_toNat_eq
    rw [wordPbaseAddr_toNat, wordPbaseAddr_toNat]
    omega
  unfold PageTableEntry.ofWord Paging.present Paging.writable Paging.userAccessible
  rw [bits 0 (by decide), bits 1 (by decide), bits 2 (by decide), field]

theorem directoryEntry_aligned {index : Nat} (inside : index < 1024) :
    (entryAddress (layout.directory slot) index).toNat % 4 = 0 := by
  have aligned : layout.dirPages % 4096 = 0 := layout.dirPages_aligned
  rw [PagingLayout.directoryEntry_toNat inside]
  omega

theorem tableEntry_aligned {page : Nat} (inside : page < 1024) :
    (entryAddress (layout.table slot) page).toNat % 4 = 0 := by
  have aligned : layout.pagusrTable % 4096 = 0 := layout.pagusrTable_aligned
  rw [PagingLayout.tableEntry_toNat inside]
  omega

theorem PagingLayout.Refers.of_marks (refers : layout.Refers memory slot)
    (same : Paging.SameEntries memory after) : layout.Refers after slot where
  opens access := by
    rw [Paging.allows_congr (same _ (directoryEntry_aligned (by decide)))]
    exact refers.opens access
  table := by
    rw [Paging.base_congr (same _ (directoryEntry_aligned (by decide)))]
    exact refers.table
  only index positive inside := by
    have entries := ofWord_congr (same _ (@directoryEntry_aligned layout slot index inside))
    exact (congrArg PageTableEntry.present entries).trans (refers.only index positive inside)

theorem PagingLayout.Stores.of_marks (stores : layout.Stores store mm)
    (same : Paging.SameEntries store.memory after)
    (tables : later.pagusrTable = mm.pagusrTable) : layout.Stores (.of after later) later where
  refers slot := (stores.refers slot).of_marks same
  entries slot page inside := by
    rw [tables, ← stores.entries slot page inside]
    exact ofWord_congr (same _ (tableEntry_aligned inside))
  physMem := rfl
  dirCounter := rfl
  programbreakTable := rfl
  ram := rfl

end Marks

/-! ## Steps -/

section Steps

variable {machine : Machine} {layout : PagingLayout} {store : PageStore}
  {mmu written : Mmu} {σ : Type} [ListOps σ Queue TaskId] {kernel : Kernel σ} {event : Event}

theorem allocateDir_slot (mm : Mm) : mm.allocateDir.2 = mm.freeSlot := by
  unfold Mm.allocateDir
  cases found : mm.freeSlot with
  | none => rfl
  | some slot => rfl

theorem words_of_erases {outcome : Except Fault Mmu} {plain : Except Fault Mm}
    {words : Except Fault PageStore} (erases : Mmu.Erases Mmu.Over outcome plain)
    (follows : Mmu.Erases layout.Stores words plain) (done : outcome = .ok written) :
    ∃ after, words = .ok after ∧ layout.Stores after written.mm := by
  rcases erases.of_ok done with ⟨plainWritten, plainDone, same⟩
  rcases follows.matched plainDone with ⟨after, wordsDone, afterStores⟩
  have covers : written.mm = plainWritten := same
  rw [covers]
  exact ⟨after, wordsDone, afterStores⟩

theorem words_of_erasesWith {α : Type} {outcome : Except Fault (Mmu × α)}
    {plain : Except Fault (Mm × α)} {words : Except Fault (PageStore × α)} {result : α}
    (erases : Mmu.Erases Mmu.OverWith outcome plain)
    (follows : Mmu.Erases (PagingLayout.Stores.With layout) words plain)
    (done : outcome = .ok (written, result)) :
    ∃ after, words = .ok (after, result) ∧ layout.Stores after written.mm := by
  rcases erases.of_ok done with ⟨⟨plainWritten, plainResult⟩, plainDone, same, sameResult⟩
  rcases follows.matched plainDone with ⟨⟨after, afterResult⟩, wordsDone, afterStores, stored⟩
  have covers : written.mm = plainWritten := same
  have results : afterResult = result := stored.trans sameResult.symm
  rw [covers, ← results]
  exact ⟨after, wordsDone, afterStores⟩

theorem forkTables_of_writes (stores : layout.Stores store mmu.mm)
    (writes : kernel.writesTables .fork mmu = .ok written) :
    ∃ after, kernel.wordTables layout .fork store = .ok after ∧
      layout.Stores after written.mm := by
  unfold Kernel.writesTables at writes
  unfold Kernel.wordTables
  dsimp only at writes ⊢
  by_cases empty : kernel.isEmpty .freequeue = true
  · rw [if_pos empty] at writes ⊢
    have same : mmu = written := Except.ok.inj writes
    rw [← same]
    exact ⟨store, rfl, stores⟩
  · rw [if_neg empty] at writes ⊢
    rcases bind_eq_ok.mp writes with ⟨⟨forked, allocated⟩, forking, result⟩
    cases result
    rcases stores.allocateDir with ⟨taken, slot⟩
    rw [slot, allocateDir_slot]
    generalize mmu.mm.freeSlot.getD kernel.currentTask.dirPagesBaseAddr = child at forking ⊢
    have covers : Mmu.Over (mmu.withMm mmu.mm.allocateDir.1) mmu.mm.allocateDir.1 := rfl
    rcases words_of_erasesWith (Mmu.forkPages_erases child _ _ covers)
      (taken.forkPages child _ _) forking with ⟨after, afterForking, afterStores⟩
    rw [afterForking]
    exact ⟨after, rfl, afterStores⟩

theorem sbrkTables_of_writes (stores : layout.Stores store mmu.mm) {amount : Int}
    (writes : kernel.writesTables (.sbrk amount) mmu = .ok written) :
    ∃ after, kernel.wordTables layout (.sbrk amount) store = .ok after ∧
      layout.Stores after written.mm := by
  rcases bind_eq_ok.mp writes with ⟨⟨moved, last⟩, moving, result⟩
  cases result
  have covers : Mmu.Over mmu mmu.mm := rfl
  rcases words_of_erasesWith (Mmu.sbrk_erases _ _ amount covers) (stores.sbrk _ _ amount) moving
    with ⟨after, done, afterStores⟩
  unfold Kernel.wordTables
  dsimp only
  rw [done]
  exact ⟨after, rfl, afterStores⟩

theorem wordTables_of_writes (stores : layout.Stores store mmu.mm)
    (writes : kernel.writesTables event mmu = .ok written) :
    ∃ after, kernel.wordTables layout event store = .ok after ∧
      layout.Stores after written.mm := by
  cases event with
  | fork => exact forkTables_of_writes stores writes
  | exit =>
      have covers : Mmu.Over mmu mmu.mm := rfl
      exact words_of_erases (Mmu.releaseDir_erases _ _ covers) (stores.releaseDir _ _) writes
  | sbrk amount => exact sbrkTables_of_writes stores writes
  | _ =>
      have same : mmu = written := Except.ok.inj writes
      rw [← same]
      exact ⟨store, rfl, stores⟩

theorem step_words {before : Worded} {after : PointerKernel} (mirrored : Mirrored before.kernel)
    (stores : layout.Stores (.of before.memory before.kernel.core.mm) before.kernel.core.mm)
    (step : (zeos machine).step before.kernel event after) :
    ∃ written mm, before.kernel.wordTables layout event
        (.of before.memory before.kernel.core.mm) = .ok written ∧
      layout.Stores written mm ∧ mm.pagusrTable = after.core.mm.pagusrTable := by
  have covers : (Paged.fresh before.kernel).mmu.mm = before.kernel.core.mm := rfl
  rcases step_writesTables mirrored covers step with ⟨written, writes, tables⟩
  rcases wordTables_of_writes stores writes with ⟨done, words, doneStores⟩
  exact ⟨done, written.mm, words, doneStores, tables⟩

end Steps

/-! ## Runs -/

section Runs

variable {machine : Machine} {layout : PagingLayout} {before after : Worded} {event : Event}

structure Worded.Right (layout : PagingLayout) (state : Worded) : Prop where
  mirrored : Mirrored state.kernel
  stores : layout.Stores (.of state.memory state.kernel.core.mm) state.kernel.core.mm

theorem Worded.Right.step (right : before.Right layout)
    (step : (wordedZeos machine layout).step before event after) : after.Right layout := by
  rcases step with ⟨kernelStep, written, writes, marked⟩
  rcases step_words right.mirrored right.stores kernelStep with
    ⟨other, mm, otherWrites, otherStores, tables⟩
  cases writes.symm.trans otherWrites
  constructor
  · exact (right.mirrored.step kernelStep).1
  · exact otherStores.of_marks marked.sameEntries tables.symm

theorem Worded.Right.init (init : (wordedZeos machine layout).init before) :
    before.Right layout := by
  rcases init with ⟨start, memory, blank, same⟩
  have boot : before.kernel = ⟨machine.bootCore 0 1, bootLinks⟩ :=
    Except.ok.inj (start.symm.trans (boot_pointers machine))
  have marks : Paging.SameEntries (PageStore.boot machine layout memory).memory
      before.memory := by
    rw [same]
    exact .refl _
  have stores := (boot_stores machine layout blank).of_marks marks rfl
  constructor
  · rw [boot]
    exact (mirrored_boot machine).1
  · rw [boot]
    exact stores

theorem right_of_words {words : List (Transition Worded Event)} {state : Worded}
    (reaches : (wordedZeos machine layout).Reaches words state) : state.Right layout := by
  rcases reaches with ⟨first, start, run⟩
  exact run.invariant (Worded.Right.init start) fun _ _ step right => right.step step

theorem worded_total (right : before.Right layout) {kernel : PointerKernel}
    (step : (zeos machine).step before.kernel event kernel) :
    ∃ after, after.kernel = kernel ∧ (wordedZeos machine layout).step before event after := by
  rcases step_words right.mirrored right.stores step with ⟨written, mm, words, -, -⟩
  exact ⟨⟨kernel, written.memory⟩, rfl, step, written, words, .none⟩

theorem worded_of_run {first last : PointerKernel} {start : Worded}
    {history : List (Transition PointerKernel Event)} (right : start.Right layout)
    (run : (zeos machine).Run first history last) (same : start.kernel = first) :
    ∃ words state, (wordedZeos machine layout).Run start words state ∧
      words.map (Transition.map Worded.kernel) = history ∧ state.kernel = last := by
  have lifts : ∀ (before : Worded) event after, before.Right layout →
      (zeos machine).step before.kernel event after →
      ∃ next : Worded, next.kernel = after ∧ next.Right layout ∧
        (wordedZeos machine layout).step before event next := by
    intro before event after right step
    rcases worded_total right step with ⟨next, sameNext, wordedStep⟩
    exact ⟨next, sameNext, right.step wordedStep, wordedStep⟩
  rcases run.lift same right lifts with ⟨words, state, wordedRun, -, mapped, sameLast⟩
  exact ⟨words, state, wordedRun, mapped, sameLast⟩

theorem blank_zero (layout : PagingLayout) : layout.Blank fun _ => 0 := by
  intro slot index inside
  rw [ByteMap.load]
  decide

end Runs

theorem Mm.InPlace.physical {machine : Machine} {mm : Mm} (inPlace : mm.InPlace machine)
    {linear : Word} (initial : (machine.initialEntry (linear.toNat / pageSize)).present = true)
    {access : Access} (supervisor : access.user = false) (slot : DirSlot) :
    mm.physical slot linear access = some linear := by
  have sizes := memoryMap
  have below := Mm.initialEntry_kernel initial
  rcases inPlace slot (linear.toNat / pageSize) initial with ⟨present, frame⟩
  unfold Mm.frameOf at frame
  have allowed : (mm.pagusrTable slot (linear.toNat / pageSize)).Allows access :=
    ⟨present, fun user => by rw [supervisor] at user; cases user⟩
  rw [Mm.physical, if_pos ⟨by omega, allowed⟩, frame]
  apply congrArg some
  apply BitVec.eq_of_toNat_eq
  rw [BitVec.toNat_ofNat, Nat.div_add_mod', Nat.mod_eq_of_lt linear.isLt]

/-- Every run of ZeOS can be run with its page tables in memory, and whenever it is, the
processor finds for every linear address what the tables of memory management say, and the
kernel finds what start-up maps of it where it is. -/
theorem pageWordsFollow {machine : Machine} (layout : PagingLayout)
    {history : List (Transition PointerKernel Event)} {last : PointerKernel}
    (reaches : (zeos machine).Reaches history last) :
    (∃ words state, (wordedZeos machine layout).Reaches words state ∧
      words.map (Transition.map Worded.kernel) = history ∧ state.kernel = last) ∧
      ∀ words state, (wordedZeos machine layout).Reaches words state → state.kernel = last →
        (∀ slot linear access, Paging.walk state.memory (layout.directory slot) linear access =
          last.core.mm.physical slot linear access) ∧
        ∀ slot linear access, (machine.initialEntry (linear.toNat / pageSize)).present = true →
          access.user = false →
          Paging.walk state.memory (layout.directory slot) linear access = some linear := by
  constructor
  · rcases reaches with ⟨first, start, run⟩
    have init : (wordedZeos machine layout).init
        ⟨first, (PageStore.boot machine layout fun _ => 0).memory⟩ :=
      ⟨start, _, blank_zero layout, rfl⟩
    rcases worded_of_run (Worded.Right.init init) run rfl with
      ⟨words, state, wordedRun, mapped, same⟩
    exact ⟨words, state, ⟨_, init, wordedRun⟩, mapped, same⟩
  · intro words state wordedReaches same
    have stores := (right_of_words wordedReaches).stores
    rw [same] at stores
    refine ⟨stores.walk, fun slot linear access initial supervisor => ?_⟩
    have inPlace : last.core.mm.InPlace machine := inPlace_of_reaches (run_toSequences reaches).2
    exact (stores.walk slot linear access).trans (inPlace.physical initial supervisor slot)

/-- The heap grows by two pages and gives one back, and the kernel can still write its
tables. -/
theorem pageWordsFollow_heap : ∃ last words state,
    (wordedZeos Machine.sample .sample).Reaches words state ∧ words.length = 2 ∧
      state.kernel = last ∧
      (∀ slot linear access,
        Paging.walk state.memory (PagingLayout.sample.directory slot) linear access =
          last.core.mm.physical slot linear access) ∧
      Paging.walk state.memory (PagingLayout.sample.directory 2) 0x2C000 ⟨false, true⟩ =
        some 0x2C000 := by
  have computed : (replay [.sbrk 8192, .sbrk (-4096)]
      ⟨Machine.sample.bootCore 0 1, bootLinks⟩).any (fun run =>
        decide (run.1.length = 2)) = true := by
    decide +kernel
  rcases reaches_of_replay computed with ⟨history, last, reaches, found⟩
  rw [decide_eq_true_eq] at found
  rcases pageWordsFollow .sample reaches with
    ⟨⟨words, state, wordedReaches, mapped, same⟩, follows⟩
  subst mapped
  rw [List.length_map] at found
  rcases follows words state wordedReaches same with ⟨walks, inPlace⟩
  exact ⟨last, words, state, wordedReaches, found, same, walks,
    inPlace 2 0x2C000 ⟨false, true⟩ (by decide) rfl⟩

end Zeos
