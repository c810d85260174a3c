import Zeos.Protection

/-! # Heaps along a run

The break of a process, in the table of breaks, and the heap pages of its page table
have to agree. A fork copies the pages without setting the child's break, an exit
releases pages that others still use, and `sys_sbrk` can leave a page behind.
-/

namespace Zeos

open Foundation Kernel

namespace Mm

variable {mm after : Mm} {pt slot child father other : DirSlot} {increment : Int}

/-- The break is between the limits of a heap, and the present heap pages are those up
to the one in front of it. -/
structure HeapExact (mm : Mm) (pt slot : DirSlot) : Prop where
  lower : heapStart ≤ mm.programbreakTable slot
  upper : mm.programbreakTable slot ≤ heapLimit
  present : ∀ page, pagLogInitHeap ≤ page → page < totalPages →
    ((mm.pagusrTable pt page).present = true ↔ page ≤ (mm.programbreakTable slot - 1) / pageSize)

theorem HeapExact.heapBreak (exactly : mm.HeapExact pt slot) : HeapBreak mm slot :=
  ⟨exactly.lower, exactly.upper⟩

theorem heapExact_iff : mm.HeapExact pt slot ↔
    HeapBreak mm slot ∧ ∀ page, pagLogInitHeap ≤ page → page < totalPages →
      ((mm.pagusrTable pt page).present = true ↔ page < pagLogInitHeap + mm.heapPages slot) := by
  have sizes := memoryMap
  have bounds := heapBounds
  have same : HeapBreak mm slot → ∀ page, pagLogInitHeap ≤ page →
      (page ≤ (mm.programbreakTable slot - 1) / pageSize ↔
        page < pagLogInitHeap + mm.heapPages slot) := by
    intro heap page above
    have lower := heap.1
    simp only [heapPages, pagesBelow, sizes] at above ⊢
    omega
  constructor
  · intro exactly
    refine ⟨exactly.heapBreak, fun page above below => ?_⟩
    exact (exactly.present page above below).trans (same exactly.heapBreak page above)
  · rintro ⟨heap, present⟩
    refine ⟨heap.1, heap.2, fun page above below => ?_⟩
    exact (present page above below).trans (same heap page above).symm

theorem heapPages_congr (same : after.programbreakTable slot = mm.programbreakTable slot) :
    after.heapPages slot = mm.heapPages slot ∧ (HeapBreak after slot ↔ HeapBreak mm slot) := by
  rw [heapPages, heapPages, HeapBreak, HeapBreak, same]
  exact ⟨rfl, .rfl⟩

theorem HeapExact.kept (exactly : mm.HeapExact pt slot)
    (same : after.programbreakTable slot = mm.programbreakTable slot)
    (entries : ∀ page, pagLogInitHeap ≤ page → page < totalPages →
      ((after.pagusrTable pt page).present = true ↔ (mm.pagusrTable pt page).present = true)) :
    after.HeapExact pt slot := by
  refine ⟨?_, ?_, fun page above below => ?_⟩
  · rw [same]
    exact exactly.lower
  · rw [same]
    exact exactly.upper
  · rw [entries page above below, same]
    exact exactly.present page above below

/-! ## `sys_sbrk` -/

theorem sbrk_shrunk {result : Option Nat} (negative : increment < 0) (int : IsInt increment)
    (heap : HeapBreak mm slot) (moved : mm.sbrk pt slot increment = .ok (after, result)) :
    after = mm.shrunk pt slot increment ∧ mm.programbreakTable slot < heapLimit ∧
      0 ≤ mm.programbreakTable slot + increment := by
  by_cases bad : mm.programbreakTable slot = heapLimit ∨ mm.programbreakTable slot + increment < 0
  · exact absurd moved (sbrk_ne_ok negative int heap.1 heap.2 bad _)
  · rw [not_or, Int.not_lt] at bad
    have below : mm.programbreakTable slot < heapLimit := Nat.lt_of_le_of_ne heap.2 bad.1
    rw [sbrk_eq_unmapped negative heap.1 below bad.2] at moved
    cases moved
    exact ⟨rfl, below, bad.2⟩

/-- A call leaves a page behind when it moves the break of a heap that is not empty
below the heap, to an address inside a page. -/
def SbrkKeepsHeap (mm : Mm) (slot : DirSlot) (increment : Int) : Prop :=
  heapStart < mm.programbreakTable slot → mm.programbreakTable slot + increment < heapStart →
    (mm.programbreakTable slot + increment) % (pageSize : Int) = 0

theorem shrunk_exact_iff (exactly : mm.HeapExact pt slot) (negative : increment < 0)
    (aboveZero : 0 ≤ mm.programbreakTable slot + increment)
    (notFull : mm.programbreakTable slot < heapLimit) :
    (mm.shrunk pt slot increment).HeapExact pt slot ↔ mm.SbrkKeepsHeap slot increment := by
  have sizes := memoryMap
  have bounds := heapBounds
  have lower := exactly.lower
  have here := @shrunk_break mm pt slot increment
  constructor
  · intro shrunk filled below
    by_contra unaligned
    -- the first heap page is still there
    have first := shrunk.present pagLogInitHeap (Nat.le_refl _) (by omega)
    have before := exactly.present pagLogInitHeap (Nat.le_refl _) (by omega)
    have kept : pagLogInitHeap ∉ released (mm.programbreakTable slot)
        (mm.programbreakTable slot + increment).toNat := by
      rw [mem_released]
      simp only [sizes] at unaligned ⊢
      omega
    rw [shrunk_table, if_neg kept, here, before] at first
    simp only [sizes] at first
    omega
  · intro aligned
    refine ⟨?_, ?_, fun page above below => ?_⟩
    · rw [here]
      exact Nat.le_max_left _ _
    · rw [here]
      omega
    · rw [shrunk_table, here]
      have before := exactly.present page above below
      by_cases gone : page ∈ released (mm.programbreakTable slot)
          (mm.programbreakTable slot + increment).toNat
      · rw [if_pos gone]
        rw [mem_released] at gone
        apply iff_of_false Bool.false_ne_true
        simp only [sizes] at above gone ⊢
        omega
      · rw [if_neg gone, before]
        rw [mem_released] at gone
        simp only [SbrkKeepsHeap, sizes] at above gone aligned ⊢
        omega

theorem grown_exact {frames : List Nat} (exactly : mm.HeapExact pt slot)
    (length : frames.length = pagesBelow (mm.programbreakTable slot + increment.toNat) -
      pagesBelow (mm.programbreakTable slot))
    (upper : mm.programbreakTable slot + increment.toNat ≤ heapLimit) :
    HeapExact (((mm.mark frames .usedFrame).mapPages pt
      (pagesBelow (mm.programbreakTable slot)) frames).setBreak slot
        (mm.programbreakTable slot + increment.toNat)) pt slot := by
  have sizes := memoryMap
  have bounds := heapBounds
  have lower := exactly.lower
  refine ⟨?_, ?_, fun page above below => ?_⟩
  · rw [setBreak_here]
    omega
  · rw [setBreak_here]
    exact upper
  · have before := exactly.present page above below
    have entry := mapPages_table (mm.mark frames .usedFrame) pt
      (pagesBelow (mm.programbreakTable slot)) frames page
    rw [setBreak_here, setBreak_pagusrTable, entry]
    simp only [pagesBelow, sizes] at length ⊢
    split
    · refine iff_of_true rfl ?_
      omega
    · refine before.trans ?_
      simp only [sizes] at above ⊢
      omega

theorem SbrkEffect.exactly (effect : SbrkEffect mm slot slot increment after)
    (exactly : mm.HeapExact slot slot) (keeps : mm.SbrkKeepsHeap slot increment)
    (others : mm.HeapExact other other) : after.HeapExact other other := by
  by_cases own : other = slot
  · subst own
    cases effect with
    | unchanged => exact exactly
    | grown frames positive inHeap found lower upper =>
        exact grown_exact exactly (allocFrames_members found).1 upper
    | shrunk negative lower upper aboveZero =>
        exact (shrunk_exact_iff exactly negative aboveZero upper).mpr keeps
  · exact others.kept (effect.otherBreak own) fun page _ _ => by rw [effect.otherTable own]

/-! ## `sys_exit` -/

theorem releaseDir_others (managed : mm.Managed) (released : mm.releaseDir pt slot = .ok after)
    (different : other ≠ pt) : after.pagusrTable other = mm.pagusrTable other := by
  have outcome := (releaseDir_eq_ok (managed.breaks slot)).mp released
  split at outcome
  · rw [outcome.2]
    exact unmapPages_other (mm.uncount pt) _ different
  · rw [outcome]
    rfl

theorem releaseDir_exact_iff (managed : mm.Managed) (exactly : mm.HeapExact slot slot)
    (released : mm.releaseDir slot slot = .ok after) :
    after.HeapExact slot slot ↔ (mm.dirCounter slot = 1 → mm.heapPages slot = 0) := by
  have sizes := memoryMap
  have bounds := heapBounds
  have lower := exactly.lower
  have same := congrFun (releaseDir_counters released).2 slot
  have pages := heapPages_congr same
  have present := (heapExact_iff.mp exactly).2
  have outcome := (releaseDir_eq_ok (managed.breaks slot)).mp released
  by_cases last : mm.dirCounter slot = 1
  · rw [if_pos last] at outcome
    rcases outcome with ⟨inside, unmapped⟩
    have entry := unmapPages_table (mm.uncount slot) slot (exitPages (mm.programbreakTable slot))
    rw [← unmapped] at entry
    rw [heapExact_iff, pages.1, pages.2]
    constructor
    · rintro ⟨-, kept⟩ -
      have first := kept pagLogInitHeap (Nat.le_refl _) (by omega)
      have member : pagLogInitHeap ∈ exitPages (mm.programbreakTable slot) := by
        rw [mem_exitPages]
        simp only [sizes]
        omega
      rw [entry, if_pos member] at first
      have absent := mt first.mpr Bool.false_ne_true
      omega
    · intro empty
      refine ⟨exactly.heapBreak, fun page above below => ?_⟩
      rw [entry]
      split
      · refine iff_of_false Bool.false_ne_true ?_
        rw [empty last]
        omega
      · exact present page above below
  · rw [if_neg last] at outcome
    apply iff_of_true _ fun counts => absurd counts last
    exact exactly.kept same fun page _ _ => by rw [outcome]; rfl

/-! ## `sys_fork` -/

theorem ForkFails.exactly_iff (fails : mm.ForkFails after child father slot)
    (exactly : mm.HeapExact other other) :
    after.HeapExact other other ↔
      (other = child → mm.heapPages slot ≤ mm.heapPages other) := by
  have sizes := memoryMap
  have fits := fails.heap.pages.2.2
  have pages := heapPages_congr (congrFun fails.programbreakTable other)
  rcases heapExact_iff.mp exactly with ⟨heap, present⟩
  rw [heapExact_iff, pages.1, pages.2]
  constructor
  · rintro ⟨-, kept⟩ own
    by_contra more
    let page := pagLogInitHeap + mm.heapPages other
    have shared := kept page (Nat.le_add_right _ _) (by omega)
    rw [fails.table, if_pos ⟨own, mem_sharedPages.mpr (.inr ⟨Nat.le_add_right _ _, by omega⟩)⟩]
      at shared
    exact absurd (shared.mp rfl) (Nat.lt_irrefl _)
  · intro covers
    refine ⟨heap, fun page above below => ?_⟩
    rw [fails.table]
    split
    · rename_i shared
      have upper := mem_sharedPages.mp shared.2
      have more := covers shared.1
      exact iff_of_true rfl (by omega)
    · exact present page above below

/-- The child's heap is right when its break happens to be the father's, and the entries
behind the heap are absent. -/
structure ForkInherits (mm : Mm) (child slot : DirSlot) : Prop where
  programbreak : mm.programbreakTable child = mm.programbreakTable slot
  absent : ∀ page, pagLogInitHeap + mm.heapPages slot ≤ page → page < totalPages →
    (mm.pagusrTable child page).present = false

theorem Forks.exactly {frames : List Nat} (forks : mm.Forks after child slot slot frames)
    (exactly : mm.HeapExact other other) (apart : other = child → child = slot) :
    after.HeapExact other other := by
  have sizes := memoryMap
  have pages := heapPages_congr (congrFun forks.programbreakTable other)
  rcases heapExact_iff.mp exactly with ⟨heap, present⟩
  rw [heapExact_iff, pages.1, pages.2]
  refine ⟨heap, fun page above below => ?_⟩
  rw [forks.table]
  split
  · rename_i fresh
    have upper := (mem_forkedPages.mp fresh.2).2
    rw [fresh.1, apart fresh.1]
    exact iff_of_true rfl upper
  · split
    · rename_i window
      have lower := (mem_windowPages.mp window.2).1
      rw [window.1]
      exact iff_of_false Bool.false_ne_true (Nat.not_lt.mpr lower)
    · rw [if_neg fun low => by have := low.2; omega]
      exact present page above below

theorem Forks.child_iff {frames : List Nat} (forks : mm.Forks after child slot slot frames)
    (different : child ≠ slot) :
    after.HeapExact child child ∧ after.programbreakTable child = after.programbreakTable slot ↔
      mm.ForkInherits child slot := by
  have sizes := memoryMap
  have breaks := forks.programbreakTable
  have pages := heapPages_congr (congrFun breaks child)
  have entry : ∀ page, pagLogInitHeap ≤ page → page < totalPages →
      after.pagusrTable child page =
        if page < pagLogInitHeap + mm.heapPages slot then
          userEntry (frames.getD (page - pagLogInitData) 0)
        else mm.pagusrTable child page := by
    intro page above _
    rw [forks.table]
    by_cases inside : page < pagLogInitHeap + mm.heapPages slot
    · rw [if_pos inside, if_pos ⟨rfl, mem_forkedPages.mpr ⟨by omega, inside⟩⟩]
    · rw [if_neg inside, if_neg fun fresh => inside (mem_forkedPages.mp fresh.2).2,
        if_neg fun window => different window.1, if_neg fun low => by have := low.2; omega]
  rw [heapExact_iff, pages.1, pages.2, breaks]
  constructor
  · rintro ⟨⟨-, present⟩, same⟩
    refine ⟨same, fun page behind below => ?_⟩
    have here := present page (by omega) below
    have number : mm.heapPages child = mm.heapPages slot := by rw [heapPages, heapPages, same]
    rw [entry page (by omega) below, if_neg (by omega), number] at here
    rw [← Bool.not_eq_true, here]
    omega
  · rintro ⟨same, absent⟩
    refine ⟨⟨?_, fun page above below => ?_⟩, same⟩
    · rw [HeapBreak, same]
      exact forks.heap
    · have number : mm.heapPages child = mm.heapPages slot := by rw [heapPages, heapPages, same]
      rw [entry page above below, number]
      split
      · rename_i inside
        exact iff_of_true rfl inside
      · rename_i behind
        rw [absent page (by omega) below]
        exact iff_of_false Bool.false_ne_true behind

theorem Forks.fresh {frames : List Nat} (forks : mm.Forks after child slot slot frames)
    (father : mm.HeapExact slot slot) (inherits : child = slot ∨ mm.ForkInherits child slot) :
    after.HeapExact child child ∧
      after.programbreakTable child = after.programbreakTable slot := by
  by_cases own : child = slot
  · rw [own] at forks ⊢
    exact ⟨forks.exactly father fun _ => rfl, rfl⟩
  · exact (forks.child_iff own).mpr (inherits.resolve_left own)

end Mm

/-! ## Steps -/

namespace Processes

variable {view : Processes} {caller : TaskId}

def HeapsExact (view : Processes) : Prop :=
  ∀ t, view.live t → t ≠ 0 →
    view.mm.HeapExact (view.dirPagesBaseAddr t) (view.posInDirCounter t)

/-- A fork finds nobody free, or stays in the father's directory; or it does not get its
frames, and whoever uses the child's directory has as many heap pages as the father; or the
child's directory happens to have the father's break, and no more pages. -/
def ForkKeepsHeaps (view : Processes) (caller : TaskId) : Prop :=
  let slot := view.posInDirCounter caller
  let child := view.newSlot slot
  view.freequeue = [] ∨ child = slot ∨
    (view.mm.available.card < numPagData + view.mm.heapPages slot →
      ∀ t, view.live t → t ≠ 0 → view.posInDirCounter t = child →
        view.mm.heapPages slot ≤ view.mm.heapPages child) ∧
    (numPagData + view.mm.heapPages slot ≤ view.mm.available.card →
      view.mm.ForkInherits child slot)

def ExitKeepsHeaps (view : Processes) (caller : TaskId) : Prop :=
  ∀ t, view.live t → t ≠ 0 → t ≠ caller → view.posInDirCounter t = view.posInDirCounter caller →
    view.mm.dirCounter (view.posInDirCounter caller) = 1 →
    view.mm.heapPages (view.posInDirCounter caller) = 0

def KeepsHeaps (view : Processes) (caller : TaskId) : Event → Prop
  | .fork => view.ForkKeepsHeaps caller
  | .exit => view.ExitKeepsHeaps caller
  | .sbrk increment => view.mm.SbrkKeepsHeap (view.posInDirCounter caller) increment
  | _ => True

def InheritsBreak (view after : Processes) (caller : TaskId) : Event → Prop
  | .fork => ∀ t, ¬view.live t → after.live t →
      after.mm.programbreakTable (after.posInDirCounter t) =
        after.mm.programbreakTable (after.posInDirCounter caller)
  | _ => True

theorem Keeps.inheritsBreak {after : Processes} (kept : view.Keeps after) (event : Event) :
    view.InheritsBreak after caller event := by
  cases event with
  | fork => exact fun t dead live => absurd ((kept.live t).mp live) dead
  | _ => trivial

theorem Reserved.heapsExact_iff (reserved : view.Reserved) (sound : view.Sound caller) :
    view.HeapsExact ↔ ∀ t, view.live t → t ≠ 0 →
      view.mm.HeapExact (view.posInDirCounter t) (view.posInDirCounter t) := by
  refine forall₃_congr fun t live _ => ?_
  rw [reserved.paired t (sound.liveNotFree live)]

end Processes

section Steps

variable {before after : SequenceKernel} {event : Event}

open Processes in
theorem MemoryStep.heapsExact (step : MemoryStep before event after)
    (holds : before.processes.HeapsExact)
    (allowed : before.processes.KeepsHeaps before.core.current event) :
    after.processes.HeapsExact ∧
      before.processes.InheritsBreak after.processes before.core.current event := by
  rcases step with ⟨sound, managed, reserved, moved, typed, -, notIdle, later, -, -⟩
  have reservedLater := moved.reserved sound reserved
  have paired := reserved.paired _ (sound.liveNotFree sound.callerLive)
  rw [reserved.heapsExact_iff sound] at holds
  rw [reservedLater.heapsExact_iff later]
  generalize before.processes = view at *
  generalize after.processes = next at *
  have slots := fun {t : TaskId} (live : view.live t) => (moved.slots_of_live sound live).1
  cases moved with
  | keeps _ _ kept full =>
      refine ⟨fun t live user => ?_, kept.inheritsBreak event⟩
      have earlier := (kept.live t).mp live
      rw [slots earlier, kept.mm]
      exact (holds t earlier user).kept rfl fun _ _ _ => .rfl
  | noMemory child rest free mm outOfFrames =>
      have fails := managed.forkFails outOfFrames
      rw [paired] at fails
      refine ⟨fun t live user => ?_, fun t dead live => absurd live dead⟩
      rw [slots live]
      apply (fails.exactly_iff (holds t live user)).mpr
      intro own
      rw [own]
      rcases allowed with none | same | others
      · rw [free] at none
        cases none
      · rw [same]
      · exact others.1 fails.few t live user own
  | forked child rest free mm copied =>
      rcases managed.forks copied with ⟨frames, forks, -⟩
      rw [paired] at forks
      have inherits : view.newSlot (view.posInDirCounter before.core.current) =
            view.posInDirCounter before.core.current ∨
          view.mm.ForkInherits (view.newSlot (view.posInDirCounter before.core.current))
            (view.posInDirCounter before.core.current) := by
        rcases allowed with none | same | inherits
        · rw [free] at none
          cases none
        · exact .inl same
        · exact .inr (inherits.2 forks.enough)
      have fresh := forks.fresh (holds _ sound.callerLive (notIdle rfl)) inherits
      constructor
      · rintro t (live | same) user
        · rw [slots live]
          by_cases own : view.posInDirCounter t =
              view.newSlot (view.posInDirCounter before.core.current)
          · rw [own]
            exact fresh.1
          · exact forks.exactly (holds t live user) fun same => absurd same own
        · subst same
          change mm.HeapExact (Function.update view.posInDirCounter t _ t)
            (Function.update view.posInDirCounter t _ t)
          rw [Function.update_self]
          exact fresh.1
      · intro t dead live
        have same : t = child := live.resolve_left dead
        subst same
        rw [slots sound.callerLive]
        change mm.programbreakTable (Function.update view.posInDirCounter t _ t) = _
        rw [Function.update_self]
        exact fresh.2
  | cloned function stack child rest free =>
      refine ⟨?_, trivial⟩
      rintro t (live | same) user
      · rw [slots live]
        exact (holds t live user).kept rfl fun _ _ _ => .rfl
      · subst same
        change Mm.HeapExact _ (Function.update view.posInDirCounter t _ t)
          (Function.update view.posInDirCounter t _ t)
        rw [Function.update_self]
        exact (holds _ sound.callerLive (notIdle rfl)).kept rfl fun _ _ _ => .rfl
  | exited mm freed =>
      refine ⟨?_, trivial⟩
      rintro t ⟨live, other⟩ user
      rw [paired] at freed
      change mm.HeapExact (view.posInDirCounter t) (view.posInDirCounter t)
      by_cases shared : view.posInDirCounter t = view.posInDirCounter before.core.current
      · have exactly := holds t live user
        rw [shared] at exactly ⊢
        exact (Mm.releaseDir_exact_iff managed exactly freed).mpr (allowed t live user other shared)
      · have tables := Mm.releaseDir_others managed freed shared
        have breaks := congrFun (Mm.releaseDir_counters freed).2 (view.posInDirCounter t)
        exact (holds t live user).kept breaks fun page _ _ => by rw [tables]
  | moved amount mm result outcome =>
      refine ⟨fun t live user => ?_, trivial⟩
      have effect := Mm.sbrk_effect typed (managed.breaks _) managed.first outcome
      rw [paired] at effect
      exact effect.exactly (holds _ sound.callerLive (notIdle rfl)) allowed (holds t live user)

/-! ## And only these -/

open Processes in
theorem MemoryStep.forkKeepsHeaps (step : MemoryStep before .fork after)
    (holds : before.processes.HeapsExact) (later : after.processes.HeapsExact)
    (inherits : before.processes.InheritsBreak after.processes before.core.current .fork) :
    before.processes.ForkKeepsHeaps before.core.current := by
  rcases step with ⟨sound, managed, reserved, moved, -, ⟨idleTask, -⟩, notIdle, soundLater, -, -⟩
  have idleLive : before.processes.live 0 := .inl idleTask.symm
  have reservedLater := moved.reserved sound reserved
  have paired := reserved.paired _ (sound.liveNotFree sound.callerLive)
  rw [reserved.heapsExact_iff sound] at holds
  rw [reservedLater.heapsExact_iff soundLater] at later
  generalize before.processes = view at *
  generalize after.processes = next at *
  have slots := fun {t : TaskId} (live : view.live t) => (moved.slots_of_live sound live).1
  cases moved with
  | keeps _ _ kept full => exact .inl (full rfl)
  | noMemory child rest free mm outOfFrames =>
      have fails := managed.forkFails outOfFrames
      rw [paired] at fails
      refine .inr (.inr ⟨fun _ t live user own => ?_, fun enough => ?_⟩)
      · have exactly := later t live user
        rw [slots live] at exactly
        rw [← own]
        exact (fails.exactly_iff (holds t live user)).mp exactly own
      · exact absurd fails.few (Nat.not_lt.mpr enough)
  | forked child rest free mm copied =>
      rcases managed.forks copied with ⟨frames, forks, -⟩
      rw [paired] at forks
      by_cases own : view.newSlot (view.posInDirCounter before.core.current) =
          view.posInDirCounter before.core.current
      · exact .inr (.inl own)
      · refine .inr (.inr ⟨fun few => ?_, fun _ => (forks.child_iff own).mp ?_⟩)
        · exact absurd few (Nat.not_lt.mpr forks.enough)
        · have user : child ≠ 0 := (sound.live_ne_child free idleLive).symm
          have dead : ¬view.live child := fun live => sound.live_ne_child free live rfl
          have exactly := later child (.inr rfl) user
          have same := inherits child dead (.inr rfl)
          rw [slots sound.callerLive] at same
          change mm.HeapExact (Function.update view.posInDirCounter child _ child)
            (Function.update view.posInDirCounter child _ child) at exactly
          change mm.programbreakTable (Function.update view.posInDirCounter child _ child) = _
            at same
          rw [Function.update_self] at exactly same
          exact ⟨exactly, same⟩

theorem MemoryStep.exitKeepsHeaps (step : MemoryStep before .exit after)
    (holds : before.processes.HeapsExact) (later : after.processes.HeapsExact) :
    before.processes.ExitKeepsHeaps before.core.current := by
  rcases step.exits rfl with ⟨mm, freed, removed⟩
  have paired := fun {t : TaskId} (live : before.processes.live t) =>
    step.reserved.paired t (step.sound.liveNotFree live)
  rw [paired step.sound.callerLive] at freed
  rw [removed] at later
  intro t live user other shared
  have exactly := holds t live user
  have still : mm.HeapExact (before.processes.dirPagesBaseAddr t)
      (before.processes.posInDirCounter t) := later t ⟨live, other⟩ user
  rw [paired live, shared] at exactly still
  exact (Mm.releaseDir_exact_iff step.managed exactly freed).mp still

theorem MemoryStep.sbrkKeepsHeap {amount : Int} (step : MemoryStep before (.sbrk amount) after)
    (holds : before.processes.HeapsExact) (later : after.processes.HeapsExact) :
    before.processes.mm.SbrkKeepsHeap
      (before.processes.posInDirCounter before.core.current) amount := by
  rcases step.moves amount rfl with ⟨mm, result, outcome, moved⟩
  have exactly := holds _ step.sound.callerLive (step.notIdle rfl)
  rw [moved] at later
  have still : mm.HeapExact _ _ := later _ step.sound.callerLive (step.notIdle rfl)
  intro filled below
  have negative : amount < 0 := by omega
  rcases Mm.sbrk_shrunk negative step.typed exactly.heapBreak outcome with
    ⟨shrunk, notFull, aboveZero⟩
  subst shrunk
  exact (Mm.shrunk_exact_iff exactly negative aboveZero notFull).mp still filled below

theorem MemoryStep.keepsHeaps (step : MemoryStep before event after)
    (holds : before.processes.HeapsExact) (later : after.processes.HeapsExact)
    (inherits : before.processes.InheritsBreak after.processes before.core.current event) :
    before.processes.KeepsHeaps before.core.current event := by
  cases event with
  | fork => exact step.forkKeepsHeaps holds later inherits
  | exit => exact step.exitKeepsHeaps holds later
  | sbrk amount => exact step.sbrkKeepsHeap holds later
  | _ => trivial

end Steps

/-! ## Runs -/

theorem boot_heapsExact (machine : Machine) :
    (Kernel.processes ⟨machine.bootCore 0 1, bootSequences⟩).HeapsExact := by
  intro t live user
  have first := (boot_live live).resolve_left user
  have slots := bootCore_slots machine t
  rw [if_neg user, if_pos first] at slots
  change Mm.HeapExact (machine.bootCore 0 1).mm ((machine.bootCore 0 1).task t).dirPagesBaseAddr
    ((machine.bootCore 0 1).task t).posInDirCounter
  rw [slots.1, slots.2, Mm.heapExact_iff, boot_heapPages]
  refine ⟨boot_heapBreak machine, fun page above _ => ?_⟩
  rw [boot_unmapped machine 2 above]
  exact iff_of_false Bool.false_ne_true (Nat.not_lt.mpr above)

/-- Every live process but the idle one has a break where a heap can end, and its heap
pages are those in front of the break. -/
def HeapsRight (kernel : PointerKernel) : Prop :=
  ∀ t, kernel.toSequences.Live t → t ≠ kernel.core.idleTask →
    kernel.core.mm.HeapExact (kernel.core.task t).dirPagesBaseAddr
      (kernel.core.task t).posInDirCounter

/-- The child of a fork has the break of its father. -/
def ChildInherits (transition : Transition PointerKernel Event) : Prop :=
  let before := transition.before
  let after := transition.after
  transition.label = .fork →
    ∀ child, ¬before.toSequences.Live child → after.toSequences.Live child →
      after.core.mm.programbreakTable (after.core.task child).posInDirCounter =
        after.core.mm.programbreakTable (after.core.task before.core.current).posInDirCounter

theorem heapsRight_iff {kernel : PointerKernel} (idle : kernel.core.idleTask = 0) :
    HeapsRight kernel ↔ kernel.toSequences.processes.HeapsExact := by
  rw [HeapsRight, idle]
  exact .rfl

theorem childInherits_iff {transition : Transition PointerKernel Event} :
    ChildInherits transition ↔
      transition.before.toSequences.processes.InheritsBreak
        transition.after.toSequences.processes transition.before.core.current
        transition.label := by
  rcases transition with ⟨before, label, after⟩
  cases label with
  | fork => exact ⟨fun inherits => inherits rfl, fun inherits _ => inherits⟩
  | _ => exact iff_of_true (fun fork => Event.noConfusion fork) trivial

theorem heapsExactRun_iff {machine : Machine} {history : List Recorded} {last : SequenceKernel}
    (reaches : (checkedZeos machine).Reaches history last) :
    (∀ transition ∈ history, transition.before.processes.HeapsExact ∧
        transition.after.processes.HeapsExact ∧
        transition.before.processes.InheritsBreak transition.after.processes
          transition.before.core.current transition.label) ↔
      ∀ transition ∈ history,
        transition.before.processes.KeepsHeaps transition.before.core.current
          transition.label := by
  have around := @reaches_memoryStep machine history last reaches
  rcases reaches with ⟨first, start, run⟩
  let Holds (kernel : SequenceKernel) : Prop := kernel.processes.HeapsExact
  have initially : Holds first := by
    rw [init_eq start]
    exact boot_heapsExact machine
  apply run.right_iff initially
  · intro transition member _ holds allowed
    have kept := (around member).heapsExact holds allowed
    exact ⟨kept.1, holds, kept⟩
  · intro transition member _ _ right
    exact (around member).keepsHeaps right.1 right.2.1 right.2.2

/-- The heaps stay right exactly as long as forks, exits and `sys_sbrk` are of the kind
that keeps them. -/
theorem heapsKept {machine : Machine} {history : List (Transition PointerKernel Event)}
    {last : PointerKernel} (reaches : (zeos machine).Reaches history last) :
    (∀ transition ∈ history, HeapsRight transition.before ∧ HeapsRight transition.after ∧
        ChildInherits transition) ↔
      ∀ transition ∈ history,
        transition.before.toSequences.processes.KeepsHeaps transition.before.core.current
          transition.label := by
  have sequences := heapsExactRun_iff (run_toSequences reaches).2
  rw [List.forall_mem_map, List.forall_mem_map] at sequences
  refine Iff.trans (forall₂_congr fun transition member => ?_) sequences
  rcases reaches.along transition member with ⟨⟨earlier, reached⟩, ⟨later, reachedLater⟩⟩
  have idle := reachable_idleTask ⟨_, (run_toSequences reached).2⟩
  have idleLater := reachable_idleTask ⟨_, (run_toSequences reachedLater).2⟩
  rw [heapsRight_iff idle, heapsRight_iff idleLater, childInherits_iff]
  exact .rfl

/-- Eight threads fill the task array, a fork is refused, and the heap grows and shrinks. -/
def heapEvents : List Event := allTaken ++ [.fork, .sbrk 8192, .sbrk (-5000)]

theorem heapsKept_full :
    ∃ history last, (zeos Machine.sample).Reaches history last ∧
      history.map (fun transition => transition.label) = heapEvents ∧
      ∀ transition ∈ history, HeapsRight transition.before ∧ HeapsRight transition.after ∧
        ChildInherits transition := by
  have computed : (replay heapEvents ⟨Machine.sample.bootCore 0 1, bootLinks⟩).any
      (fun run => decide (run.1.map (fun transition => transition.label) = heapEvents ∧
        ∀ transition ∈ run.1,
          (transition.label = .fork → transition.before.isEmpty .freequeue = true) ∧
          ∀ amount ∈ [8192, -5000], transition.label = .sbrk amount →
            (heapStart : Int) ≤ transition.before.core.mm.programbreakTable
              transition.before.currentTask.posInDirCounter + amount)) = true := by
    decide +kernel
  rcases reaches_of_replay computed with ⟨history, last, reaches, found⟩
  rcases of_decide_eq_true found with ⟨labels, calls⟩
  refine ⟨history, last, reaches, labels, (heapsKept reaches).mpr fun transition member => ?_⟩
  have mirrored := reachable_mirrored (reaches.along transition member).1
  have listed : transition.label ∈ history.map fun transition => transition.label :=
    List.mem_map_of_mem member
  rw [labels] at listed
  rcases calls transition member with ⟨forks, moves⟩
  cases label : transition.label with
  | fork =>
      have empty := forks label
      rw [mirrored.represents.isEmpty, Kernel.isEmpty_iff] at empty
      exact .inl empty
  | sbrk amount =>
      rw [label] at listed
      have small : amount ∈ [8192, -5000] := by
        simpa [heapEvents, allTaken] using listed
      intro _ below
      exact absurd (moves amount small label) (Int.not_le.mpr below)
  | exit =>
      rw [label] at listed
      exact absurd listed (by decide)
  | _ => trivial

/-- The first fork leaves the child without a break. -/
theorem heapsKept_fork :
    ∃ kernel, (zeos Machine.sample).Reachable kernel ∧ ¬HeapsRight kernel := by
  rcases boot_forks with ⟨frames, -, fork⟩
  have start : (checkedZeos Machine.sample).Reaches _ _ :=
    ⟨_, boot_sequences Machine.sample, .single fork⟩
  rcases reaches_of_sequences start with ⟨history, kernel, reaches, -, same⟩
  refine ⟨kernel, ⟨history, reaches⟩, fun right => ?_⟩
  have idle := reachable_idleTask ⟨_, (run_toSequences reaches).2⟩
  have exactly := (heapsRight_iff idle).mp right
  rw [same] at exactly
  have lower := (exactly 2 (.inr (.inr ProcessState.noConfusion)) (by decide)).lower
  have unset : ∀ mm : Mm, (forkedAtBoot mm).processes.mm.programbreakTable
      ((forkedAtBoot mm).processes.posInDirCounter 2) = mm.programbreakTable 3 := fun _ => rfl
  rw [unset, (Mm.forkCopied_rest _ 3 2 2 frames).2.2, Mm.allocateDir_eq] at lower
  change heapStart ≤ (Machine.sample.bootCore 0 1).mm.programbreakTable 3 at lower
  rw [boot_programbreak, if_neg (by decide)] at lower
  exact absurd lower (by decide)

end Zeos
