import Zeos.Duplication
import Zeos.Families
import Zeos.ForkExit
import Zeos.Foundation.Holdings

/-! # Isolation of processes

Every frame behind a data or heap page of a directory in use is in use and behind no
other page of data or heap, and not behind a page of kernel or code either. So what one
process stores in its code, data and heap, another one never finds in its data or heap.
-/

namespace Zeos

open Foundation Kernel

namespace Mm

variable {mm after : Mm} {child father pt slot : DirSlot} {owned later : Set DirSlot}

/-! ## Frames behind pages -/

/-- The frames behind the data and heap pages of some directories, beside those behind
their pages of kernel and code. -/
def holdings (mm : Mm) (owned : Set DirSlot) : Holdings (DirSlot × Nat) Nat where
  places := {place | place.1 ∈ owned ∧ pagLogInitData ≤ place.2 ∧ place.2 < totalPages}
  held place :=
    if (mm.pagusrTable place.1 place.2).present then some (mm.frameOf place.1 place.2) else none
  shared := {frame | numPagKernel ≤ frame ∧ ∃ slot ∈ owned, ∃ page < pagLogInitData,
    mm.frameOf slot page = frame}
  inUse := {frame | numPagKernel ≤ frame ∧ frame < totalPages ∧ mm.physMem frame = .usedFrame}

def Separate (mm : Mm) (owned : Set DirSlot) : Prop := (mm.holdings owned).Exclusive

theorem held_eq_some {page frame : Nat} : (mm.holdings owned).held (pt, page) = some frame ↔
    (mm.pagusrTable pt page).present = true ∧ mm.frameOf pt page = frame := by
  change (if (mm.pagusrTable pt page).present then some (mm.frameOf pt page) else none) = _ ↔ _
  split
  · rename_i present
    rw [Option.some.injEq]
    exact ⟨fun same => ⟨present, same⟩, fun both => both.2⟩
  · rename_i absent
    constructor
    · intro same
      cases same
    · intro both
      exact absurd both.1 absent

theorem held_congr {page frame : Nat} (same : after.pagusrTable pt page = mm.pagusrTable pt page) :
    (after.holdings later).held (pt, page) = some frame ↔
      (mm.holdings owned).held (pt, page) = some frame := by
  rw [held_eq_some, held_eq_some, same, frameOf_congr same]

theorem not_inUse_of_available {frame : Nat} (available : frame ∈ mm.available) :
    frame ∉ (mm.holdings owned).inUse := by
  rintro ⟨-, -, used⟩
  rw [(mem_available.mp available).2.2.2] at used
  cases used

theorem inUse_of_marked {frames : List Nat} {frame : Nat} (listed : frame ∈ frames)
    (available : frame ∈ mm.available)
    (marks : after.physMem = (mm.mark frames .usedFrame).physMem) :
    frame ∈ (after.holdings later).inUse := by
  rcases mem_available.mp available with ⟨below, above, -, -⟩
  refine ⟨above, below, ?_⟩
  rw [marks]
  exact if_pos listed

theorem inUse_mark {frames : List Nat}
    (marks : after.physMem = (mm.mark frames .usedFrame).physMem) :
    (mm.holdings owned).inUse ⊆ (after.holdings later).inUse := by
  rintro frame ⟨above, below, used⟩
  refine ⟨above, below, ?_⟩
  rw [marks]
  change (if frame ∈ frames then FrameMark.usedFrame else mm.physMem frame) = .usedFrame
  split
  · rfl
  · exact used

/-! ## What the calls do to them -/

theorem Separate.of_same (separate : mm.Separate owned) (fewer : later ⊆ owned)
    (marks : after.physMem = mm.physMem)
    (tables : ∀ pt ∈ later, after.pagusrTable pt = mm.pagusrTable pt) : after.Separate later := by
  have frames : ∀ pt ∈ later, ∀ page, after.frameOf pt page = mm.frameOf pt page :=
    fun pt member page => frameOf_congr (congrFun (tables pt member) page)
  apply Holdings.Exclusive.grant separate
  refine ⟨?_, ?_, ?_, ?_⟩
  · rintro frame ⟨above, below, used⟩
    exact ⟨above, below, by rwa [marks]⟩
  · rintro ⟨pt, page⟩ ⟨member, range⟩ frame holds
    exact .inl ⟨⟨fewer member, range⟩, (held_congr (congrFun (tables pt member) page)).mp holds⟩
  · rintro ⟨pt, page⟩ ⟨member, range⟩ other - frame unused holds
    have earlier : (mm.holdings owned).held (pt, page) = some frame :=
      (held_congr (congrFun (tables pt member) page)).mp holds
    exact absurd (separate.used (pt, page) ⟨fewer member, range⟩ frame earlier) unused
  · rintro frame ⟨above, pt, member, page, low, same⟩
    rw [frames pt member] at same
    exact .inl ⟨above, pt, fewer member, page, low, same⟩


/-- Consecutive pages of one table get frames that could be had. All other entries are
deleted or left alone, except that kernel and code pages may be mapped like those of
another directory. -/
structure Filled (mm after : Mm) (target : DirSlot) (start : Nat) (frames : List Nat)
    (owned later : Set DirSlot) : Prop where
  fewer : later ⊆ owned
  members : ∀ frame ∈ frames, frame ∈ mm.available
  nodup : frames.Nodup
  marks : after.physMem = (mm.mark frames .usedFrame).physMem
  entries : ∀ pt ∈ later, ∀ page,
    (pt = target ∧ start ≤ page ∧ page < start + frames.length ∧
        after.pagusrTable pt page = userEntry (frames.getD (page - start) 0)) ∨
      after.pagusrTable pt page = .zero ∨
      after.pagusrTable pt page = mm.pagusrTable pt page ∨
      page < pagLogInitData ∧ ∃ other ∈ owned, after.frameOf pt page = mm.frameOf other page

section Filled

variable {start : Nat} {frames : List Nat}

theorem Filled.frame (filled : mm.Filled after child start frames owned later) {page : Nat}
    (above : start ≤ page) (below : page < start + frames.length)
    (entry : after.pagusrTable pt page = userEntry (frames.getD (page - start) 0)) :
    after.frameOf pt page = frames.getD (page - start) 0 ∧
      frames.getD (page - start) 0 ∈ frames := by
  have listed : frames.getD (page - start) 0 ∈ frames := getD_mem (by omega)
  rw [frameOf, entry, userEntry_toNat (mem_available.mp (filled.members _ listed)).1]
  exact ⟨rfl, listed⟩

/-- What a page holds afterwards it held before, or it is one of the pages that are
filled. -/
theorem Filled.held (filled : mm.Filled after child start frames owned later)
    {page frame : Nat} (member : pt ∈ later) (above : pagLogInitData ≤ page)
    (holds : (after.holdings later).held (pt, page) = some frame) :
    (mm.holdings owned).held (pt, page) = some frame ∨
      (pt = child ∧ start ≤ page ∧ page < start + frames.length) ∧
        frame = frames.getD (page - start) 0 ∧ frame ∈ frames := by
  rcases held_eq_some.mp holds with ⟨present, same⟩
  rcases filled.entries pt member page with ⟨own, lower, upper, entry⟩ | deleted | kept | ⟨low, -⟩
  · rcases filled.frame lower upper entry with ⟨number, listed⟩
    rw [number] at same
    exact .inr ⟨⟨own, lower, upper⟩, same.symm, same ▸ listed⟩
  · rw [deleted] at present
    cases present
  · exact .inl ((held_congr kept).mp holds)
  · exact absurd low (Nat.not_lt.mpr above)

theorem Separate.filled (separate : mm.Separate owned)
    (filled : mm.Filled after child start frames owned later) : after.Separate later := by
  apply Holdings.Exclusive.grant separate
  have fresh : ∀ frame ∈ frames,
      frame ∈ (after.holdings later).inUse ∧ frame ∉ (mm.holdings owned).inUse := by
    intro frame listed
    exact ⟨inUse_of_marked listed (filled.members frame listed) filled.marks,
      not_inUse_of_available (filled.members frame listed)⟩
  refine ⟨inUse_mark filled.marks, ?_, ?_, ?_⟩
  · rintro ⟨pt, page⟩ ⟨member, above, below⟩ frame holds
    rcases filled.held member above holds with kept | ⟨-, -, listed⟩
    · exact .inl ⟨⟨filled.fewer member, above, below⟩, kept⟩
    · exact .inr (fresh frame listed)
  · rintro ⟨pt, page⟩ ⟨member, above, below⟩ ⟨other, number⟩ ⟨otherMember, otherAbove, otherBelow⟩
      frame unused holds otherHolds
    rcases filled.held member above holds with kept | ⟨⟨own, lower, upper⟩, same, -⟩
    · exact absurd (separate.used (pt, page) ⟨filled.fewer member, above, below⟩ frame kept) unused
    · rcases filled.held otherMember otherAbove otherHolds with
        kept | ⟨⟨otherOwn, low, high⟩, here, -⟩
      · exact absurd (separate.used (other, number)
          ⟨filled.fewer otherMember, otherAbove, otherBelow⟩ frame kept) unused
      · have index := getD_inj filled.nodup (by omega) (by omega) (same.symm.trans here)
        have samePage : page = number := by omega
        exact Prod.ext (own.trans otherOwn.symm) samePage
  · rintro frame ⟨pool, pt, member, page, low, same⟩
    rcases filled.entries pt member page with ⟨own, lower, upper, entry⟩ | deleted | kept |
      ⟨-, other, otherMember, number⟩
    · -- a page of kernel or code that is filled: no page of data or heap is on its frame
      rcases filled.frame lower upper entry with ⟨number, listed⟩
      rw [number] at same
      rcases fresh frame (same ▸ listed) with ⟨used, unused⟩
      refine .inr ⟨used, unused, ?_⟩
      rintro ⟨other, highPage⟩ ⟨otherMember, above, below⟩ holds
      rcases filled.held otherMember above holds with kept | ⟨⟨-, otherLower, otherUpper⟩, here, -⟩
      · exact unused (separate.used (other, highPage)
          ⟨filled.fewer otherMember, above, below⟩ frame kept)
      · have index := getD_inj filled.nodup (by omega) (by omega) (same.trans here)
        omega
    · have zero : after.frameOf pt page = 0 := by
        rw [frameOf, deleted]
        rfl
      have sizes := memoryMap
      omega
    · rw [frameOf_congr kept] at same
      exact .inl ⟨pool, pt, filled.fewer member, page, low, same⟩
    · rw [number] at same
      exact .inl ⟨pool, other, otherMember, page, low, same⟩

end Filled

theorem Separate.unmap (separate : mm.Separate owned) (cleared : mm.Cleared) (fewer : later ⊆ owned)
    (member : pt ∈ owned) {pages : List Nat}
    (above : ∀ page ∈ pages, pagLogInitData ≤ page ∧ page < totalPages) :
    (mm.unmapPages pt pages).Separate later := by
  have entries : ∀ other page, (mm.unmapPages pt pages).pagusrTable other page =
      if other = pt ∧ page ∈ pages then .zero else mm.pagusrTable other page := by
    intro other page
    by_cases own : other = pt
    · subst own
      rw [unmapPages_table]
      simp
    · rw [unmapPages_other mm pages own, if_neg fun both => own both.1]
  let gone : Set (DirSlot × Nat) := {place | place.1 = pt ∧ place.2 ∈ pages}
  refine @Holdings.Exclusive.release _ _ _ _ gone separate ⟨?_, ?_, ?_, ?_⟩
  · rintro place ⟨member, range⟩
    exact ⟨fewer member, range⟩
  · rintro ⟨other, page⟩ - frame holds
    rcases held_eq_some.mp holds with ⟨present, same⟩
    have entry := entries other page
    split at entry
    · rw [entry] at present
      cases present
    · rename_i outside
      exact ⟨(held_congr entry).mp holds, outside⟩
  · rintro frame ⟨pool, other, otherMember, page, low, same⟩
    have outside : ¬(other = pt ∧ page ∈ pages) := by
      rintro ⟨-, listed⟩
      exact absurd low (Nat.not_lt.mpr (above page listed).1)
    have entry := entries other page
    rw [if_neg outside] at entry
    rw [frameOf_congr entry] at same
    exact ⟨pool, other, fewer otherMember, page, low, same⟩
  · rintro frame ⟨pool, below, used⟩
    by_cases freed : (numPagKernel < frame ∧ frame < totalPages) ∧
        frame ∈ pages.map (mm.frameOf pt)
    · rcases List.mem_map.mp freed.2 with ⟨page, listed, same⟩
      refine .inr
        ⟨(pt, page), ⟨rfl, listed⟩, ⟨member, above page listed⟩, held_eq_some.mpr ⟨?_, same⟩⟩
      rw [← Bool.not_eq_false]
      intro absent
      have reserved := (cleared pt page absent).1
      omega
    · exact .inl ⟨pool, below, (if_neg freed).trans used⟩

/-! ## The calls -/

theorem Separate.forks {frames : List Nat} (separate : mm.Separate owned) (fewer : later ⊆ owned)
    (fathers : father ∈ owned) (forks : mm.Forks after child father slot frames) :
    after.Separate later := by
  have sizes := memoryMap
  have length := forks.length
  apply @Separate.filled mm after child owned later pagLogInitData frames separate
  refine ⟨fewer, forks.members, forks.nodup, forks.physMem, fun pt member page => ?_⟩
  have entry := forks.table pt page
  by_cases fresh : pt = child ∧ page ∈ forkedPages (mm.heapPages slot)
  · rw [if_pos fresh] at entry
    rcases mem_forkedPages.mp fresh.2 with ⟨lower, upper⟩
    exact .inl ⟨fresh.1, lower, by omega, entry⟩
  · rw [if_neg fresh] at entry
    split at entry
    · exact .inr (.inl entry)
    · split at entry
      · rename_i low
        refine .inr (.inr (.inr ⟨low.2, father, fathers, ?_⟩))
        have own :
            (userEntry (mm.frameOf father page)).pbaseAddr.toNat = mm.frameOf father page := by
          rw [frameOf, userEntry_frame]
        rw [frameOf, entry, own]
      · exact .inr (.inr (.inl entry))

theorem Separate.forkFails (separate : mm.Separate owned) (fewer : later ⊆ owned)
    (lost : child ∉ later) (fails : mm.ForkFails after child father slot) :
    after.Separate later := by
  refine separate.of_same fewer fails.physMem fun pt member => ?_
  funext page
  rw [fails.table]
  apply if_neg
  rintro ⟨own, -⟩
  exact lost (own ▸ member)

theorem Separate.sbrk {increment : Int} (separate : mm.Separate owned) (cleared : mm.Cleared)
    (fewer : later ⊆ owned) (member : pt ∈ owned)
    (effect : SbrkEffect mm pt slot increment after) : after.Separate later := by
  have sizes := memoryMap
  have bounds := heapBounds
  cases effect with
  | unchanged => exact separate.of_same fewer rfl fun _ _ => rfl
  | grown frames positive inHeap found lower upper =>
      rcases allocFrames_members found with ⟨length, nodup, members⟩
      apply @Separate.filled mm _ pt owned later (pagesBelow (mm.programbreakTable slot)) frames
        separate
      refine ⟨fewer, members, nodup, rfl, fun other _ page => ?_⟩
      change (_ ∧ _ ∧ _ ∧ ((mm.mark frames .usedFrame).mapPages pt
          (pagesBelow (mm.programbreakTable slot)) frames).pagusrTable other page = _) ∨
        ((mm.mark frames .usedFrame).mapPages pt _ frames).pagusrTable other page = _ ∨
        ((mm.mark frames .usedFrame).mapPages pt _ frames).pagusrTable other page = _ ∨ _
      by_cases own : other = pt
      · subst own
        rw [mapPages_table]
        split
        · rename_i range
          exact .inl ⟨rfl, range.1, range.2, rfl⟩
        · exact .inr (.inr (.inl rfl))
      · rw [mapPages_other _ _ frames own]
        exact .inr (.inr (.inl rfl))
  | shrunk negative lower upper aboveZero =>
      apply Separate.of_same (separate.unmap cleared fewer member ?_) (Set.Subset.refl _) rfl
        fun _ _ => rfl
      intro page listed
      rw [mem_released] at listed
      simp only [heapStart, heapLimit, sizes] at lower upper listed ⊢
      omega

theorem Separate.exit (separate : mm.Separate owned) (cleared : mm.Cleared)
    (managed : mm.Managed) (fewer : later ⊆ owned) (member : pt ∈ owned)
    (released : mm.releaseDir pt slot = .ok after) : after.Separate later := by
  have sizes := memoryMap
  have outcome := (releaseDir_eq_ok (managed.breaks slot)).mp released
  split at outcome
  · rw [outcome.2]
    have counted : (mm.uncount pt).Separate owned := separate
    refine counted.unmap cleared fewer member fun page listed => ?_
    have below := outcome.1
    rcases mem_exitPages.mp listed with ⟨low, high⟩
    simp only [heapLimit, sizes] at below high low ⊢
    omega
  · rw [outcome]
    exact Separate.of_same separate fewer rfl fun _ _ => rfl

end Mm

/-! ## Directories in use -/

namespace Processes

/-- The directories that are free or somebody's. The others are lost: start-up takes one
for nobody, and a fork without memory leaves one behind. -/
def owned (view : Processes) : Set DirSlot :=
  {slot | view.mm.dirCounter slot = 0 ∨ ∃ t, view.live t ∧ view.dirPagesBaseAddr t = slot}

theorem owned_of_live {view : Processes} {t : TaskId} (live : view.live t) :
    view.dirPagesBaseAddr t ∈ view.owned :=
  .inr ⟨t, live, rfl⟩

end Processes

section Step

variable {view after : Processes} {caller : TaskId} {event : Event}

theorem ProcessStep.owned (sound : view.Sound caller) (step : ProcessStep view caller event after)
    (finds : FindsDirectory view event) (reserved : view.Reserved) : after.owned ⊆ view.owned := by
  -- both outcomes of a fork set the counter of a directory that was free
  have forks : ∀ {child : TaskId} {rest : List TaskId} {mm : Mm} {enough : Bool},
      view.freequeue = child :: rest → view.forkPages caller = .ok (mm, enough) →
      event = .fork → ∀ slot, mm.dirCounter slot = 0 → view.mm.dirCounter slot = 0 := by
    intro child rest mm enough free forked isFork slot none
    rcases Option.ne_none_iff_exists'.mp (finds isFork (by simp [free])) with ⟨taken, found⟩
    rw [(Mm.forkPages_bookkept forked).dirCounter, Mm.allocateDir_some found] at none
    by_cases here : slot = taken
    · subst here
      exact Mm.freeSlot_some found
    · change Function.update view.mm.dirCounter taken 1 slot = 0 at none
      rwa [Function.update_of_ne here] at none
  cases step with
  | keeps event after keeps full =>
      rintro slot (none | ⟨t, live, own⟩)
      · rw [keeps.mm] at none
        exact .inl none
      · rw [keeps.dirPagesBaseAddr] at own
        exact .inr ⟨t, (keeps.live t).mp live, own⟩
  | noMemory child rest free mm outOfFrames =>
      rintro slot (none | ⟨t, live, own⟩)
      · exact .inl (forks free outOfFrames rfl slot none)
      · exact .inr ⟨t, live, (sound.update_live free live _ _).symm.trans own⟩
  | forked child rest free mm copied =>
      rintro slot (none | ⟨t, live | isChild, own⟩)
      · exact .inl (forks free copied rfl slot none)
      · exact .inr ⟨t, live, (sound.update_live free live _ _).symm.trans own⟩
      · subst isChild
        rcases Option.ne_none_iff_exists'.mp (finds rfl (by simp [free])) with ⟨taken, found⟩
        apply Or.inl
        have child : Function.update view.dirPagesBaseAddr t
            (view.newSlot (view.dirPagesBaseAddr caller)) t = slot := own
        rw [Function.update_self, Processes.newSlot, found] at child
        rw [← child]
        exact Mm.freeSlot_some found
  | cloned function stack child rest free =>
      rintro slot (none | ⟨t, live | isChild, own⟩)
      · by_cases here : slot = view.posInDirCounter caller
        · have paired := reserved.paired caller (sound.liveNotFree sound.callerLive)
          exact .inr ⟨caller, sound.callerLive, paired.trans here.symm⟩
        · have counter : Function.update view.mm.dirCounter (view.posInDirCounter caller)
              (view.mm.dirCounter (view.posInDirCounter caller) + 1) slot = 0 := none
          rw [Function.update_of_ne here] at counter
          exact .inl counter
      · exact .inr ⟨t, live, (sound.update_live free live _ _).symm.trans own⟩
      · subst isChild
        have child : Function.update view.dirPagesBaseAddr t (view.dirPagesBaseAddr caller) t =
          slot := own
        rw [Function.update_self] at child
        exact .inr ⟨caller, sound.callerLive, child⟩
  | exited mm freed =>
      rintro slot (none | ⟨t, live, own⟩)
      · by_cases here : slot = view.dirPagesBaseAddr caller
        · exact .inr ⟨caller, sound.callerLive, here.symm⟩
        · change mm.dirCounter slot = 0 at none
          rw [(Mm.releaseDir_counters freed).1, Function.update_of_ne here] at none
          exact .inl none
      · exact .inr ⟨t, live.1, own⟩
  | moved amount mm result outcome =>
      rintro slot (none | ⟨t, live, own⟩)
      · change mm.dirCounter slot = 0 at none
        rw [(Mm.sbrk_counters outcome).1] at none
        exact .inl none
      · exact .inr ⟨t, live, own⟩

theorem ProcessStep.separate (sound : view.Sound caller)
    (step : ProcessStep view caller event after) (typed : event.WellTyped)
    (finds : FindsDirectory view event) (reserved : view.Reserved) (counted : view.Counted)
    (managed : view.mm.Managed) (cleared : view.mm.Cleared)
    (separate : view.mm.Separate view.owned) : after.mm.Separate after.owned := by
  have fewer := step.owned sound finds reserved
  have caller := Processes.owned_of_live sound.callerLive
  cases step with
  | keeps event after keeps full =>
      apply separate.of_same fewer
      · rw [keeps.mm]
      · intro pt _
        rw [keeps.mm]
  | noMemory child rest free mm outOfFrames =>
      apply separate.forkFails fewer _ (managed.forkFails outOfFrames)
      rcases Option.ne_none_iff_exists'.mp (finds rfl (by simp [free])) with ⟨taken, found⟩
      rw [Processes.newSlot, found]
      rintro (none | ⟨t, live, own⟩)
      · change mm.dirCounter taken = 0 at none
        rw [(Mm.forkPages_bookkept outOfFrames).dirCounter, Mm.allocateDir_some found] at none
        have one : Function.update view.mm.dirCounter taken 1 taken = 0 := none
        rw [Function.update_self] at one
        cases one
      · exact counted.not_live reserved sound found live
          ((sound.update_live free live _ _).symm.trans own)
  | forked child rest free mm copied =>
      rcases managed.forks copied with ⟨frames, forks, -⟩
      exact separate.forks fewer caller forks
  | cloned function stack child rest free => exact separate.of_same fewer rfl fun _ _ => rfl
  | exited mm freed => exact separate.exit cleared managed fewer caller freed
  | moved amount mm result outcome =>
      exact separate.sbrk cleared fewer caller
        (Mm.sbrk_effect typed (managed.breaks _) managed.first outcome)

end Step

/-! ## Runs -/

theorem initialEntry_frame (machine : Machine) (page : Nat) :
    (machine.initialEntry page).pbaseAddr.toNat < numPagKernel ∧
      (numPagKernel ≤ page → machine.initialEntry page = .zero) := by
  have sizes := memoryMap
  unfold Machine.initialEntry
  split
  · exact ⟨by decide, fun _ => rfl⟩
  · rename_i inside
    have number : (BitVec.ofNat 20 page).toNat < numPagKernel := by
      rw [BitVec.toNat_ofNat, Nat.mod_eq_of_lt (by omega)]
      omega
    split
    · exact ⟨number, fun above => by omega⟩
    · exact ⟨number, fun above => by omega⟩

/-- Behind every page is a frame of the kernel, or the page is code or data of the first
process. -/
theorem boot_frame (machine : Machine) (pt : DirSlot) (page : Nat) :
    (Mm.frameOf (machine.bootCore 0 1).mm pt page < numPagKernel ∧
        (numPagKernel ≤ page → (machine.bootCore 0 1).mm.pagusrTable pt page = .zero)) ∨
      pagLogInitCode ≤ page ∧ page < pagLogInitHeap ∧ pt = 2 ∧
        Mm.frameOf (machine.bootCore 0 1).mm pt page =
          numPagKernel + 2 * (page - pagLogInitCode) := by
  have sizes := memoryMap
  have number : ∀ rw taken, taken < 28 →
      (Mm.bootEntry rw (numPagKernel + 2 * taken)).pbaseAddr.toNat = numPagKernel + 2 * taken := by
    intro rw taken few
    exact Mm.userEntry_toNat (by omega)
  rw [Mm.frameOf, boot_table]
  split
  · rename_i first
    rw [Machine.firstTable]
    split
    · rename_i data
      have index : numPagCode + (page - pagLogInitData) = page - pagLogInitCode := by omega
      rw [index, number true _ (by omega)]
      exact .inr ⟨by omega, by omega, first, rfl⟩
    · split
      · rename_i code
        rw [number false _ (by omega)]
        exact .inr ⟨by omega, by omega, first, rfl⟩
      · exact .inl (initialEntry_frame machine page)
  · exact .inl (initialEntry_frame machine page)

theorem boot_separate (machine : Machine) (owned : Set DirSlot) :
    (machine.bootCore 0 1).mm.Separate owned := by
  have sizes := memoryMap
  let mm := (machine.bootCore 0 1).mm
  have used : ∀ page, pagLogInitCode ≤ page → page < pagLogInitHeap →
      numPagKernel + 2 * (page - pagLogInitCode) ∈ (mm.holdings owned).inUse := by
    intro page above below
    refine ⟨by omega, by omega, ?_⟩
    rw [boot_physMem, takenMark, if_pos (.inr ⟨by omega, by omega⟩)]
  have holds : ∀ pt page frame, pagLogInitData ≤ page →
      (mm.holdings owned).held (pt, page) = some frame →
        page < pagLogInitHeap ∧ pt = 2 ∧ frame = numPagKernel + 2 * (page - pagLogInitCode) := by
    intro pt page frame above held
    rcases Mm.held_eq_some.mp held with ⟨present, same⟩
    rcases boot_frame machine pt page with ⟨-, empty⟩ | ⟨-, below, first, number⟩
    · rw [empty (by omega)] at present
      cases present
    · exact ⟨below, first, same.symm.trans number⟩
  have shares : ∀ frame ∈ (mm.holdings owned).shared,
      ∃ page, pagLogInitCode ≤ page ∧ page < pagLogInitData ∧
        frame = numPagKernel + 2 * (page - pagLogInitCode) := by
    rintro frame ⟨pool, pt, -, page, low, same⟩
    rcases boot_frame machine pt page with ⟨kernel, -⟩ | ⟨above, -, -, number⟩
    · change Mm.frameOf (machine.bootCore 0 1).mm pt page = frame at same
      omega
    · exact ⟨page, above, low, same.symm.trans number⟩
  refine ⟨?_, ?_, ?_, ?_⟩
  · rintro ⟨pt, page⟩ ⟨-, above, -⟩ frame held
    rcases holds pt page frame above held with ⟨below, -, number⟩
    rw [number]
    exact used page (by omega) below
  · rintro ⟨pt, page⟩ ⟨-, above, -⟩ ⟨other, higher⟩ ⟨-, otherAbove, -⟩ frame held otherHeld
    rcases holds pt page frame above held with ⟨below, first, number⟩
    rcases holds other higher frame otherAbove otherHeld with ⟨otherBelow, otherFirst, same⟩
    have samePage : page = higher := by omega
    exact Prod.ext (first.trans otherFirst.symm) samePage
  · rintro ⟨pt, page⟩ ⟨-, above, -⟩ frame held common
    rcases holds pt page frame above held with ⟨below, -, number⟩
    rcases shares frame common with ⟨code, lower, upper, same⟩
    omega
  · intro frame common
    rcases shares frame common with ⟨code, lower, upper, same⟩
    rw [same]
    exact used code lower (by omega)

theorem separate_of_reaches {machine : Machine} {history : List Recorded} {last : SequenceKernel}
    (reaches : (checkedZeos machine).Reaches history last)
    (finds : ForksFindDirectories history) : last.core.mm.Separate last.processes.owned := by
  let Holds (view : Processes) : Prop :=
    (view.Counted ∧ view.mm.Cleared) ∧ view.mm.Separate view.owned
  have holds : Holds last.processes := by
    apply @processes_invariant machine history last Holds reaches
      ⟨⟨boot_counted machine, boot_cleared machine⟩, boot_separate machine _⟩
    intro transition member sound step before
    rcases before with ⟨⟨counted, cleared⟩, separate⟩
    have found := finds transition member
    have around := reaches_memoryStep reaches member
    refine ⟨⟨step.counted sound found around.reserved counted, ?_⟩, ?_⟩
    · exact cleared.kept (step.entriesKept around.typed around.managed)
    · exact step.separate sound around.typed found around.reserved counted around.managed cleared
        separate
  exact holds.2

/-! ## What a process stores -/

namespace Mm

/-- The stores that a program makes through its page table, in their order. The pages of the
kernel, which a child can write, are left out: `storeByte` ends there with an error. -/
def storeEach (pt : DirSlot) (mm : Mm) (stores : List (Nat × UInt8)) : Except Fault Mm :=
  stores.foldlM (fun mm store => mm.storeByte pt store.1 store.2) mm

variable {mm stored : Mm} {pt other : DirSlot} {owned : Set DirSlot}

theorem storeByte_eq {address : Nat} {byte : UInt8}
    (stores : mm.storeByte pt address byte = .ok stored) :
    ∃ page offset, page < totalPages ∧ (mm.pagusrTable pt page).present = true ∧
      stored = { mm with
        ram := Function.update mm.ram (mm.frameOf pt page)
          (Function.update (mm.ram (mm.frameOf pt page)) offset byte) } := by
  rcases storeByte_inv stores with ⟨place, translated, -, same⟩
  unfold translate at translated
  split at translated
  · rename_i mapped
    cases translated
    subst same
    exact ⟨address / pageSize, address % pageSize, mapped.1, mapped.2, rfl⟩
  · cases translated

theorem Separate.frame_ne (separate : mm.Separate owned) (member : pt ∈ owned)
    (otherMember : other ∈ owned) (apart : pt ≠ other) {page number : Nat}
    (inside : page < totalPages) (present : (mm.pagusrTable pt page).present = true)
    (above : pagLogInitData ≤ number) (below : number < totalPages)
    (otherPresent : (mm.pagusrTable other number).present = true) :
    mm.frameOf pt page ≠ mm.frameOf other number := by
  intro same
  have held : (mm.holdings owned).held (other, number) = some (mm.frameOf other number) :=
    held_eq_some.mpr ⟨otherPresent, rfl⟩
  have place : (other, number) ∈ (mm.holdings owned).places := ⟨otherMember, above, below⟩
  by_cases low : page < pagLogInitData
  · have pool := (separate.used (other, number) place _ held).1
    exact separate.apart (other, number) place _ held ⟨pool, pt, member, page, low, same⟩
  · have here : (mm.holdings owned).held (pt, page) = some (mm.frameOf other number) :=
      held_eq_some.mpr ⟨present, same⟩
    have both := separate.once (pt, page) ⟨member, Nat.not_lt.mp low, inside⟩ (other, number) place
      _ here held
    exact apart (congrArg Prod.fst both)

theorem Separate.storeByte (separate : mm.Separate owned) {address : Nat} {byte : UInt8}
    (stores : mm.storeByte pt address byte = .ok stored) : stored.Separate owned := by
  rcases storeByte_eq stores with ⟨page, offset, -, -, same⟩
  rw [same]
  exact separate.of_same (Set.Subset.refl _) rfl fun _ _ => rfl

theorem Separate.load_stored (separate : mm.Separate owned) (member : pt ∈ owned)
    (otherMember : other ∈ owned) (apart : pt ≠ other) {address place : Nat} {byte : UInt8}
    (stores : mm.storeByte pt address byte = .ok stored) (own : pagLogInitData ≤ place / pageSize) :
    loadByte other stored place = loadByte other mm place := by
  rcases storeByte_eq stores with ⟨page, offset, inside, present, same⟩
  have translates : stored.translate other place = mm.translate other place := by
    rw [same]
    rfl
  rw [loadByte, loadByte, translates]
  unfold translate
  split
  · rename_i mapped
    have different :=
      separate.frame_ne member otherMember apart inside present own mapped.1 mapped.2
    change Except.ok (stored.ram (mm.frameOf other (place / pageSize)) _) = Except.ok _
    rw [same]
    exact congrArg Except.ok (congrFun (Function.update_of_ne different.symm _ _) _)
  · rfl

theorem Separate.load_storeEach {stores : List (Nat × UInt8)} (separate : mm.Separate owned)
    (member : pt ∈ owned) (otherMember : other ∈ owned) (apart : pt ≠ other) {place : Nat}
    (finished : mm.storeEach pt stores = .ok stored) (own : pagLogInitData ≤ place / pageSize) :
    loadByte other stored place = loadByte other mm place := by
  induction stores generalizing mm with
  | nil =>
      cases finished
      rfl
  | cons store stores induction =>
      rw [storeEach, List.foldlM_cons] at finished
      rcases bind_eq_ok.mp finished with ⟨middle, first, rest⟩
      rw [induction (separate.storeByte first) rest]
      exact separate.load_stored member otherMember apart first own

end Mm

/-- In a run whose forks find directories, nothing that one process stores outside of the
kernel's pages changes what another process has in its data and heap. -/
theorem processesIsolated {machine : Machine} {history : List (Transition PointerKernel Event)}
    {last : PointerKernel} (reaches : (zeos machine).Reaches history last)
    (finds : ForksFindDirectories (record history)) {writer reader : TaskId}
    (writes : last.toSequences.Live writer) (reads : last.toSequences.Live reader)
    (apart : leaders (record history) writer ≠ leaders (record history) reader)
    {stores : List (Nat × UInt8)} {stored : Mm}
    (finished : last.core.mm.storeEach (last.core.task writer).dirPagesBaseAddr stores = .ok stored)
    {place : Nat} (own : pagLogInitData * pageSize ≤ place) :
    Mm.loadByte (last.core.task reader).dirPagesBaseAddr stored place =
      Mm.loadByte (last.core.task reader).dirPagesBaseAddr last.core.mm place := by
  have sequences := (run_toSequences reaches).2
  have together := (led_of_reaches sequences finds).together writer reader writes reads
  apply (separate_of_reaches sequences finds).load_storeEach
    (Processes.owned_of_live writes) (Processes.owned_of_live reads) _ finished
  · have sizes := memoryMap
    simp only [sizes] at own ⊢
    omega
  · exact fun same => apart (together.mp same)

/-- After the first fork the child's data is out of reach of its father. -/
theorem processesIsolated_fork :
    ∃ history last, (zeos Machine.sample).Reaches history last ∧
      ∀ stores stored, last.core.mm.storeEach (last.core.task 1).dirPagesBaseAddr stores =
          .ok stored →
        Mm.loadByte (last.core.task 2).dirPagesBaseAddr stored 1081344 =
          Mm.loadByte (last.core.task 2).dirPagesBaseAddr last.core.mm 1081344 := by
  rcases reaches_forkedAtBoot with
    ⟨history, last, -, reaches, finds, -, father, child, first, second⟩
  refine ⟨history, last, reaches, fun stores stored finished => ?_⟩
  refine processesIsolated reaches finds father child ?_ finished (by decide)
  rw [first, second]
  decide

/-- In a run whose forks find directories, no frame that a live process has a page on is
handed out. -/
theorem mappedNotAllocated {machine : Machine} {history : List (Transition PointerKernel Event)}
    {last : PointerKernel} (reaches : (zeos machine).Reaches history last)
    (finds : ForksFindDirectories (record history)) {t : TaskId}
    (live : last.toSequences.Live t) {page : Nat} (inside : page < totalPages)
    (present : (last.core.mm.pagusrTable (last.core.task t).dirPagesBaseAddr page).present = true)
    {frame : Nat} {after : Mm} (allocated : last.core.mm.allocFrame = (after, some frame)) :
    frame ≠ last.core.mm.frameOf (last.core.task t).dirPagesBaseAddr page := by
  have separate := separate_of_reaches (run_toSequences reaches).2 finds
  have member : (last.core.task t).dirPagesBaseAddr ∈ last.toSequences.processes.owned :=
    Processes.owned_of_live live
  have available := (Mm.allocFrame_some allocated).1
  have unused := @Mm.not_inUse_of_available _ last.toSequences.processes.owned _ available
  intro same
  apply unused
  rw [same] at available ⊢
  by_cases low : page < pagLogInitData
  · exact separate.sharedUsed ⟨(Mm.mem_available.mp available).2.1, _, member, page, low, rfl⟩
  · exact separate.used (_, page) ⟨member, Nat.not_lt.mp low, inside⟩ _
      (Mm.held_eq_some.mpr ⟨present, rfl⟩)

theorem Mm.releaseDir_frees {mm after : Mm} {pt slot : DirSlot} (breakSet : BreakSet mm slot)
    (released : mm.releaseDir pt slot = .ok after) (last : mm.dirCounter pt = 1) {page frame : Nat}
    (data : page ∈ exitPages (mm.programbreakTable slot)) (here : mm.frameOf pt page = frame)
    (inside : numPagKernel < frame ∧ frame < totalPages) (even : frame % 2 = 0) :
    frame ∈ after.available := by
  have outcome := (releaseDir_eq_ok breakSet).mp released
  rw [if_pos last] at outcome
  rw [outcome.2, mem_available]
  exact ⟨inside.2, Nat.le_of_lt inside.1, even,
    if_pos ⟨inside, List.mem_map.mpr ⟨page, data, here⟩⟩⟩

theorem boot_forksData :
    ∃ mm, (checkedZeos Machine.sample).step ⟨Machine.sample.bootCore 0 1, bootSequences⟩ .fork
        (forkedAtBoot mm) ∧
      mm.dirCounter 2 = 1 ∧ mm.programbreakTable 2 = heapStart ∧
      mm.frameOf 2 pagLogInitData = 272 ∧ (mm.pagusrTable 3 pagLogInitData).present = true := by
  rcases boot_forks with ⟨frames, -, fork⟩
  have allocated := Mm.allocateDir_eq (Machine.sample.bootCore 0 1).mm
  have pages : Mm.heapPages (Machine.sample.bootCore 0 1).mm.allocateDir.1 2 = 0 := by
    rw [allocated]
    exact boot_heapPages Machine.sample
  have table := Mm.forkCopied_table (Machine.sample.bootCore 0 1).mm.allocateDir.1 3 2 2 frames
  have rest := Mm.forkCopied_rest (Machine.sample.bootCore 0 1).mm.allocateDir.1 3 2 2 frames
  rw [pages] at table
  refine ⟨_, fork, ?_, ?_, ?_, ?_⟩
  · rw [rest.2.1, Mm.allocateDir, boot_freeSlot]
    change Function.update (Mm.dirCounter (Machine.sample.bootCore 0 1).mm) 3 1 2 = 1
    rw [Function.update_of_ne (by decide), boot_dirCounter]
    rfl
  · rw [rest.2.2, allocated]
    exact boot_programbreak Machine.sample 2
  · rw [Mm.frameOf, table, if_neg (by decide), if_neg (by decide), if_neg (by decide), allocated]
    change (Mm.pagusrTable (Machine.sample.bootCore 0 1).mm 2 pagLogInitData).pbaseAddr.toNat = 272
    rw [boot_table, if_pos rfl, Machine.firstTable, if_pos (by decide)]
    rfl
  · rw [table, if_pos (by decide)]
    rfl

theorem reaches_exitedFather :
    ∃ history last, (zeos Machine.sample).Reaches history last ∧
      ForksFindDirectories (record history) ∧
      (record history).map (fun transition => transition.label) = [.fork, .exit] ∧
      last.toSequences.Live 2 ∧
      (last.core.mm.pagusrTable (last.core.task 2).dirPagesBaseAddr pagLogInitData).present =
        true ∧ 272 ∈ last.core.mm.available := by
  rcases boot_forksData with ⟨mm, fork, counter, programbreak, frame, childPage⟩
  have managed := reachable_managed ⟨_, boot_sequences Machine.sample, .single fork⟩
  have breakSet : Mm.BreakSet mm 2 := managed.breaks 2
  have disciplined := execute_disciplined (boot_disciplined Machine.sample) fork.1 fork.2
  have enabled : Event.exit.Enabled (forkedAtBoot mm).core :=
    Event.enabled_call trivial Event.noConfusion rfl (show (1 : TaskId) ≠ 0 by decide)
  have freed : mm.releaseDir 2 2 = .ok ((mm.uncount 2).unmapPages 2 (Mm.exitPages heapStart)) := by
    refine (Mm.releaseDir_eq_ok breakSet).mpr ?_
    rw [if_pos counter, programbreak]
    exact ⟨by decide, rfl⟩
  rcases exit_steps disciplined enabled freed with ⟨after, exits⟩
  rcases exit_removes disciplined exits with ⟨later, released, removed⟩
  have available : 272 ∈ later.available := by
    refine Mm.releaseDir_frees breakSet released counter ?_ frame (by decide) rfl
    rw [programbreak]
    decide
  have memory : after.core.mm = later := congrArg Processes.mm removed
  have directory : (after.core.task 2).dirPagesBaseAddr = 3 :=
    congrArg (fun view => Processes.dirPagesBaseAddr view 2) removed
  have live : after.Live 2 := by
    have both : after.processes.live 2 := by
      rw [removed]
      exact ⟨.inr (.inr ProcessState.noConfusion), show (2 : TaskId) ≠ 1 by decide⟩
    exact both
  have kept : later.pagusrTable 3 = mm.pagusrTable 3 := by
    rw [Except.ok.inj (released.symm.trans freed)]
    exact Mm.unmapPages_other (mm.uncount 2) _ (by decide)
  rcases reaches_of_sequences ⟨_, boot_sequences Machine.sample, .snoc (.single fork) exits⟩ with
    ⟨history, last, reaches, recorded, same⟩
  subst same
  refine ⟨history, last, reaches, ?_, ?_, live, ?_, ?_⟩
  · rw [recorded]
    intro transition member isFork _ missing
    rcases List.mem_cons.mp member with first | second
    · subst first
      cases (boot_freeSlot Machine.sample).symm.trans missing
    · rw [List.mem_singleton.mp second] at isFork
      cases isFork
  · rw [recorded]
    rfl
  · change (last.toSequences.core.mm.pagusrTable
      (last.toSequences.core.task 2).dirPagesBaseAddr pagLogInitData).present = true
    rw [memory, directory, kept]
    exact childPage
  · change 272 ∈ last.toSequences.core.mm.available
    rw [memory]
    exact available

theorem mappedNotAllocated_exit :
    ∃ history last after frame, (zeos Machine.sample).Reaches history last ∧
      (record history).map (fun transition => transition.label) = [.fork, .exit] ∧
      last.core.mm.allocFrame = (after, some frame) ∧
      frame ≠ last.core.mm.frameOf (last.core.task 2).dirPagesBaseAddr pagLogInitData := by
  rcases reaches_exitedFather with ⟨history, last, reaches, finds, labels, live, present, free⟩
  cases allocated : last.core.mm.allocFrame with
  | mk after result =>
      cases result with
      | none => exact absurd free ((Mm.allocFrame_none allocated).1 ▸ Finset.notMem_empty _)
      | some frame =>
          exact ⟨history, last, after, frame, reaches, labels, allocated,
            mappedNotAllocated reaches finds live (by decide) present allocated⟩

end Zeos
