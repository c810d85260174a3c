import Zeos.Mmu

/-! # When the TLB agrees with the page table

For each routine that writes page tables, the circumstances under which what the TLB
may hold for user pages is still right at its end.
-/

namespace Zeos

open Foundation

namespace Mmu

/-- What the TLB may hold for user pages is in the page table in use. -/
def Coherent (mmu : Mmu) : Prop :=
  mmu.tlb.Agrees (fun page => pagLogInitCode ≤ page) mmu.table

variable {mmu after : Mmu} {child father pt slot : DirSlot}

theorem setCr3_coherent (mmu : Mmu) (dir : DirSlot) : (mmu.setCr3 dir).Coherent :=
  TranslationCache.agrees_flush _ _

theorem Coherent.withMm (coherent : mmu.Coherent) {mm : Mm}
    (unseen : ∀ page, pagLogInitCode ≤ page → (mmu.table page).present = true →
      mm.pagusrTable mmu.cr3 page = mmu.table page) : (mmu.withMm mm).Coherent :=
  (TranslationCache.Agrees.change coherent unseen).fill

theorem Coherent.sameTable (coherent : mmu.Coherent) {mm : Mm}
    (same : mm.pagusrTable mmu.cr3 = mmu.table) : (mmu.withMm mm).Coherent :=
  coherent.withMm fun page _ _ => congrFun same page

theorem lift_eq_ok {change : Mm → Except Fault Mm} (done : mmu.lift change = .ok after) :
    ∃ mm, change mmu.mm = .ok mm ∧ after = mmu.withMm mm := by
  rcases bind_eq_ok.mp done with ⟨mm, changed, result⟩
  cases result
  exact ⟨mm, changed, rfl⟩

/-! ## Sharing pages with a child -/

/-- A fork may go on writing the child's table: it is not the one in use, or writing
its entries again does not change them. -/
structure Shares (child father : DirSlot) (mmu : Mmu) : Prop where
  current : mmu.cr3 = father
  coherent : mmu.Coherent
  apart : child ≠ father ∨ mmu.mm.Open father

theorem Shares.copyEntry {page : Nat} (shares : Shares child father mmu)
    (done : mmu.lift (Mm.copyEntry child father page) = .ok after) :
    Shares child father after := by
  rcases lift_eq_ok done with ⟨mm, copied, result⟩
  have written := Mm.copyEntry_eq_ok copied
  have rewrites := (Mm.copyEntry_rewriting child father page mmu.mm).of_ok copied
  have current := shares.current
  subst result
  refine ⟨current, ?_, shares.apart.imp_right fun isOpen => isOpen.rewrites rewrites⟩
  rcases shares.apart with different | isOpen
  · apply shares.coherent.sameTable
    rw [written, current, Mm.setEntry_otherTable _ _ _ different.symm]
    exact congrArg mmu.mm.pagusrTable current.symm
  · apply shares.coherent.withMm
    intro other above present
    unfold table at present ⊢
    rw [current] at present ⊢
    rw [written]
    by_cases own : child = father
    · subst own
      by_cases here : other = page
      · subst here
        rw [Mm.setEntry_here, isOpen.entry_eq above present]
      · rw [Mm.setEntry_otherPage _ _ _ here]
    · rw [Mm.setEntry_otherTable _ _ _ (Ne.symm own)]

theorem Shares.forkShare (shares : Shares child father mmu)
    (shared : mmu.forkShare child father slot = .ok after) : Shares child father after := by
  have loops : ∀ {start count : Nat} {first last : Mmu}, Shares child father first →
      countedLoop (fun page => lift (Mm.copyEntry child father page)) start count first =
        .ok last → Shares child father last := by
    intro start count first last before finished
    apply countedLoop_invariant (fun _ current => Shares child father current) finished before
    intro index current next _ _ earlier copied
    exact earlier.copyEntry copied
  rcases bind_eq_ok.mp shared with ⟨code, copiedCode, rest⟩
  rcases bind_eq_ok.mp rest with ⟨kernel, copiedKernel, copiedHeap⟩
  exact loops (loops (loops shares copiedCode) copiedKernel) copiedHeap

def forkDemand (mm : Mm) (slot : DirSlot) : Nat := (numPagData + mm.pagHeap slot).toNat

/-- A fork that succeeds has written CR3. One that runs out of frames has only
written the entries it shares. -/
theorem forkPages_coherent (current : mmu.cr3 = father) (coherent : mmu.Coherent)
    (safe : forkDemand mmu.mm slot ≤ mmu.mm.available.card ∨ child ≠ father ∨
      mmu.mm.Open father) {allocated : Bool}
    (forked : mmu.forkPages child father slot = .ok (after, allocated)) :
    after.cr3 = father ∧ after.Coherent := by
  rcases bind_eq_ok.mp forked with ⟨shared, sharing, rest⟩
  have covers : Over mmu mmu.mm := rfl
  rcases (forkShare_erases child father slot covers).of_ok sharing with ⟨mm, sharedMm, same⟩
  have only : Mm.OnlyTables mmu.mm shared.mm := by
    rw [show shared.mm = mm from same]
    exact Mm.forkShare_onlyTables sharedMm
  have demand : forkDemand shared.mm slot = forkDemand mmu.mm slot := by
    rw [only]
    rfl
  have available : shared.mm.available = mmu.mm.available := by
    rw [only]
    rfl
  have enough := Mm.allocFrames_isSome (forkDemand shared.mm slot) shared.mm []
  have tables := Mm.allocFrames_pagusrTable (forkDemand shared.mm slot) shared.mm []
  rw [available, demand] at enough
  have count : (numPagData + shared.mm.pagHeap slot).toNat = forkDemand mmu.mm slot := demand
  rw [demand] at tables
  dsimp only at rest
  rw [count] at rest
  generalize Mm.allocFrames (forkDemand mmu.mm slot) shared.mm [] = allocation at *
  rcases allocation with ⟨middle, frames⟩
  cases frames with
  | none =>
      cases rest
      have apart : child ≠ father ∨ mmu.mm.Open father :=
        safe.resolve_left fun holds => Bool.false_ne_true (enough.mpr holds)
      have shares := Shares.forkShare ⟨current, coherent, apart⟩ sharing
      exact ⟨shares.current, shares.coherent.sameTable (congrFun tables _)⟩
  | some frames =>
      rcases bind_eq_ok.mp rest with ⟨copied, -, result⟩
      cases result
      exact ⟨rfl, setCr3_coherent _ _⟩

theorem fork_coherent (current : mmu.cr3 = father) (coherent : mmu.Coherent)
    (safe : forkDemand mmu.mm slot ≤ mmu.mm.available.card ∨ child ≠ father ∨
      mmu.mm.Open father) {allocated : Bool}
    (forked : (mmu.withMm mmu.mm.allocateDir.1).forkPages child father slot =
      .ok (after, allocated)) :
    after.cr3 = father ∧ after.Coherent := by
  have same := Mm.allocateDir_eq mmu.mm
  have start : (mmu.withMm mmu.mm.allocateDir.1).Coherent := by
    apply coherent.sameTable
    rw [same]
    rfl
  have safe' : forkDemand mmu.mm.allocateDir.1 slot ≤ mmu.mm.allocateDir.1.available.card ∨
      child ≠ father ∨ mmu.mm.allocateDir.1.Open father := by
    rw [same]
    exact safe
  exact forkPages_coherent (show (mmu.withMm mmu.mm.allocateDir.1).cr3 = father from current) start
    safe' forked

/-! ## The heap -/

theorem sbrkGrow_inv {endaddress npages tpentry : Nat} {allocated : Bool}
    (growth : Mm.sbrkGrowth (mmu.mm.programbreakTable slot) endaddress = (npages, tpentry))
    (grown : mmu.sbrkGrow pt slot endaddress = .ok (after, allocated)) :
    ∃ middle frames, Mm.allocFrames npages mmu.mm [] = (middle, frames) ∧
      (after = mmu.withMm middle ∨ ∃ taken, frames = some taken ∧
        countedLoop (fun i => lift fun mm => mm.setSsPag pt (tpentry + i) (taken.getD i 0)) 0
          npages (mmu.withMm middle) = .ok after) := by
  unfold sbrkGrow at grown
  rw [growth] at grown
  dsimp only at grown
  split at grown
  · cases grown
  · generalize Mm.allocFrames npages mmu.mm [] = allocation at *
    rcases allocation with ⟨middle, frames⟩
    refine ⟨middle, frames, rfl, ?_⟩
    cases frames with
    | none =>
        cases grown
        exact .inl rfl
    | some taken =>
        dsimp only at grown
        split at grown
        · cases grown
        · rcases bind_eq_ok.mp grown with ⟨mapped, mapping, result⟩
          cases result
          exact .inr ⟨taken, rfl, mapping⟩

theorem sbrkGrow_coherent {endaddress npages tpentry : Nat} (coherent : mmu.Coherent)
    (growth : Mm.sbrkGrowth (mmu.mm.programbreakTable slot) endaddress = (npages, tpentry))
    (unmapped : npages ≤ mmu.mm.available.card →
      ∀ i < npages, (mmu.table (tpentry + i)).present = false) {allocated : Bool}
    (grown : mmu.sbrkGrow mmu.cr3 slot endaddress = .ok (after, allocated)) :
    after.cr3 = mmu.cr3 ∧ after.Coherent := by
  have enough := Mm.allocFrames_isSome npages mmu.mm []
  have tables := Mm.allocFrames_pagusrTable npages mmu.mm []
  rcases sbrkGrow_inv growth grown with ⟨middle, frames, allocation, outcome⟩
  rw [allocation] at enough tables
  have allocates : (mmu.withMm middle).Coherent := coherent.sameTable (congrFun tables _)
  rcases outcome with same | ⟨taken, isSome, mapping⟩
  · rw [same]
    exact ⟨rfl, allocates⟩
  · rw [isSome] at enough
    -- the pages still to be mapped are absent
    let Left (index : Nat) (current : Mmu) : Prop :=
      current.cr3 = mmu.cr3 ∧ current.Coherent ∧
        ∀ i, index ≤ i → i < npages → (current.table (tpentry + i)).present = false
    have initially : Left 0 (mmu.withMm middle) := by
      refine ⟨rfl, allocates, fun i _ within => ?_⟩
      have absent := unmapped (enough.mp rfl) i within
      rwa [← show (mmu.withMm middle).table = mmu.table from congrFun tables _] at absent
    have finished := countedLoop_invariant Left mapping initially ?_
    · exact ⟨finished.1, finished.2.1⟩
    · rintro index current next - below ⟨sameDir, earlier, absent⟩ set
      rcases lift_eq_ok set with ⟨mm, written, result⟩
      have written := Mm.setSsPag_eq_ok written
      subst result
      refine ⟨sameDir, earlier.withMm fun page above present => ?_, fun i later within => ?_⟩
      · rw [written, sameDir]
        have here := absent index (le_refl _) (by omega)
        have different : page ≠ tpentry + index := by
          intro same
          rw [← same, present] at here
          cases here
        rw [Mm.setEntry_otherPage _ _ _ different]
        exact congrArg (fun dir => current.mm.pagusrTable dir page) sameDir.symm
      · have different : tpentry + i ≠ tpentry + index := by omega
        have before := absent i (by omega) within
        unfold table at before ⊢
        rw [sameDir] at before
        change (mm.pagusrTable current.cr3 (tpentry + i)).present = false
        rwa [sameDir, written, Mm.setEntry_otherPage _ _ _ different]

/-- What a growing `sbrk` will map is not mapped yet, unless the call is refused or
there are not enough frames. -/
def GrowsUnmapped (mm : Mm) (pt slot : DirSlot) (increment : Int) : Prop :=
  0 < increment → pagLogInitHeap ≤ toSigned (mm.endaddress slot increment) / pageSize →
    toSigned (mm.endaddress slot increment) / pageSize ≤ totalPages →
    (Mm.sbrkGrowth (mm.programbreakTable slot) (mm.endaddress slot increment)).1 ≤
      mm.available.card →
    ∀ i < (Mm.sbrkGrowth (mm.programbreakTable slot) (mm.endaddress slot increment)).1,
      (mm.pagusrTable pt ((Mm.sbrkGrowth (mm.programbreakTable slot)
        (mm.endaddress slot increment)).2 + i)).present = false

theorem sbrk_coherent {increment : Int} (coherent : mmu.Coherent)
    (unmapped : GrowsUnmapped mmu.mm mmu.cr3 slot increment) {result : Option Nat}
    (moved : mmu.sbrk mmu.cr3 slot increment = .ok (after, result)) :
    after.cr3 = mmu.cr3 ∧ after.Coherent := by
  unfold sbrk at moved
  dsimp only at moved
  split at moved
  · cases moved
    exact ⟨rfl, coherent⟩
  · rename_i inside
    split at moved
    · rename_i positive
      rcases bind_eq_ok.mp moved with ⟨⟨grown, allocated⟩, growing, rest⟩
      have limits : pagLogInitHeap ≤ toSigned (mmu.mm.endaddress slot increment) / pageSize ∧
          toSigned (mmu.mm.endaddress slot increment) / pageSize ≤ totalPages := by
        rw [not_and, not_or, Int.not_lt, Int.not_lt] at inside
        exact inside (Int.le_of_lt positive)
      have grows := sbrkGrow_coherent coherent rfl
        (unmapped positive limits.1 limits.2) growing
      cases allocated with
      | false =>
          cases rest
          exact grows
      | true =>
          cases rest
          exact ⟨grows.1, grows.2.sameTable rfl⟩
    · split at moved
      · rcases bind_eq_ok.mp moved with ⟨shrunk, shrinking, rest⟩
        rcases bind_eq_ok.mp shrinking with ⟨unmapped, -, flushed⟩
        cases flushed
        cases rest
        exact ⟨rfl, (setCr3_coherent unmapped mmu.cr3).sameTable rfl⟩
      · cases moved
        exact ⟨rfl, coherent.sameTable rfl⟩

/-! ## What stays in the TLB -/

theorem withMm_held {page : Nat} {entry : PageTableEntry} {mm : Mm}
    (holds : mmu.tlb.held page entry) : (mmu.withMm mm).tlb.held page entry :=
  .inl holds

theorem sbrkGrow_held {endaddress page : Nat} {entry : PageTableEntry} {allocated : Bool}
    (holds : mmu.tlb.held page entry)
    (grown : mmu.sbrkGrow pt slot endaddress = .ok (after, allocated)) :
    after.tlb.held page entry := by
  generalize growth : Mm.sbrkGrowth (mmu.mm.programbreakTable slot) endaddress = grows
  rcases grows with ⟨npages, tpentry⟩
  rcases sbrkGrow_inv growth grown with ⟨middle, frames, -, same | ⟨taken, -, mapping⟩⟩
  · rw [same]
    exact withMm_held holds
  · apply countedLoop_invariant (fun _ current => current.tlb.held page entry) mapping
      (withMm_held holds)
    intro index current next _ _ earlier set
    rcases lift_eq_ok set with ⟨mm, -, result⟩
    rw [result]
    exact withMm_held earlier

theorem sbrk_held {increment : Int} (positive : 0 < increment) {page : Nat}
    {entry : PageTableEntry} (holds : mmu.tlb.held page entry) {result : Option Nat}
    (moved : mmu.sbrk pt slot increment = .ok (after, result)) : after.tlb.held page entry := by
  unfold sbrk at moved
  dsimp only at moved
  split at moved
  · cases moved
    exact holds
  · rcases bind_eq_ok.mp moved with ⟨⟨grown, allocated⟩, growing, rest⟩
    have kept := sbrkGrow_held holds growing
    cases allocated with
    | false =>
        cases rest
        exact kept
    | true =>
        cases rest
        exact withMm_held kept

/-! ## Leaving a directory -/

theorem releaseDir_coherent (coherent : mmu.Coherent) (others : mmu.mm.dirCounter pt ≠ 1)
    (released : mmu.releaseDir pt slot = .ok after) : after.cr3 = mmu.cr3 ∧ after.Coherent := by
  unfold releaseDir at released
  dsimp only at released
  split at released
  · rename_i last
    have counter : mmu.mm.dirCounter pt - 1 = 0 := by
      simpa [Mmu.withMm] using last
    exact absurd (by omega) others
  · cases released
    exact ⟨rfl, coherent.sameTable rfl⟩

theorem switchDir_coherent {old new : DirSlot}
    (coherent : old = new → mmu.cr3 = old ∧ mmu.Coherent) :
    (mmu.switchDir old new).cr3 = new ∧ (mmu.switchDir old new).Coherent := by
  unfold switchDir
  split
  · rename_i same
    rw [← same]
    exact coherent same
  · exact ⟨rfl, setCr3_coherent mmu new⟩

end Mmu

end Zeos
