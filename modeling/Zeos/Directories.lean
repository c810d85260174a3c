import Zeos.Tables

/-! # Counters of directories

Who uses a page directory, and what `dir_counter` says about it. Start-up takes the
first directory for `task[0]`, and `init_idle` takes another one for the same task, so
the first counter never counts anybody.
-/

namespace Zeos

open Foundation Kernel

namespace Mm

/-! ## What the routines on tables leave alone -/

structure Bookkept (before after : Mm) : Prop where
  dirCounter : after.dirCounter = before.dirCounter
  programbreakTable : after.programbreakTable = before.programbreakTable

theorem Bookkept.refl (mm : Mm) : Bookkept mm mm := ⟨rfl, rfl⟩

theorem Bookkept.trans {first second third : Mm} (one : Bookkept first second)
    (two : Bookkept second third) : Bookkept first third :=
  ⟨two.dirCounter.trans one.dirCounter, two.programbreakTable.trans one.programbreakTable⟩

section Routines

variable {mm after : Mm} {pt child father slot : DirSlot}

theorem setSsPag_bookkept {page frame : Nat} (written : mm.setSsPag pt page frame = .ok after) :
    Bookkept mm after := by
  rw [setSsPag_eq_ok written]
  exact ⟨rfl, rfl⟩

theorem delSsPag_bookkept {page : Nat} (cleared : mm.delSsPag pt page = .ok after) :
    Bookkept mm after := by
  unfold delSsPag at cleared
  split at cleared
  · cases cleared
    exact ⟨rfl, rfl⟩
  · cases cleared

theorem freeFrame_bookkept (mm : Mm) (frame : Nat) : Bookkept mm (mm.freeFrame frame) := by
  unfold freeFrame
  split <;> exact ⟨rfl, rfl⟩

theorem freeFrames_bookkept (mm : Mm) (frames : List Nat) : Bookkept mm (mm.freeFrames frames) := by
  unfold freeFrames
  induction frames generalizing mm with
  | nil => exact .refl mm
  | cons frame frames induction => exact (freeFrame_bookkept mm frame).trans (induction _)

theorem allocFrames_bookkept {count : Nat} {allocated : List Nat} {result : Option (List Nat)}
    (done : allocFrames count mm allocated = (after, result)) : Bookkept mm after := by
  induction count generalizing mm allocated with
  | zero =>
      cases done
      exact .refl _
  | succ count induction =>
      have frame := allocFrame_frame mm
      unfold allocFrames at done
      generalize mm.allocFrame = allocation at frame done
      rcases allocation with ⟨middle, answer⟩
      have first : Bookkept mm middle := ⟨frame.2.1, frame.2.2.1⟩
      cases answer with
      | none =>
          cases done
          exact first.trans (freeFrames_bookkept middle allocated)
      | some frame => exact first.trans (induction done)

theorem loop_bookkept {body : Nat → Mm → Except Fault Mm}
    (each : ∀ index current next, body index current = .ok next → Bookkept current next)
    {start count : Nat} (finished : countedLoop body start count mm = .ok after) :
    Bookkept mm after := by
  apply countedLoop_invariant (fun _ current => Bookkept mm current) finished (.refl mm)
  intro index current next _ _ before done
  exact before.trans (each index current next done)

theorem releasePage_bookkept {page : Nat} (released : releasePage pt page mm = .ok after) :
    Bookkept mm after := by
  rcases bind_eq_ok.mp released with ⟨frame, -, cleared⟩
  exact (freeFrame_bookkept mm frame).trans (delSsPag_bookkept cleared)

theorem freeUserPages_bookkept (freed : mm.freeUserPages pt slot = .ok after) :
    Bookkept mm after := by
  rcases bind_eq_ok.mp freed with ⟨middle, data, heap⟩
  have each : ∀ index (current next : Mm), releasePage pt index current = .ok next →
      Bookkept current next := fun _ _ _ => releasePage_bookkept
  exact (loop_bookkept each data).trans (loop_bookkept each heap)

theorem forkShare_bookkept (shared : forkShare child father slot mm = .ok after) :
    Bookkept mm after := by
  rw [forkShare_onlyTables shared]
  exact ⟨rfl, rfl⟩

theorem copyData_bookkept {start dest : Nat} {size : Int}
    (copied : mm.copyData pt start dest size = .ok after) : Bookkept mm after := by
  have keeps : ∀ state address byte next, Bookkept mm state →
      (through pt).store state address byte = .ok next → Bookkept mm next := by
    intro state address byte next kept stored
    rcases storeByte_inv stored with ⟨place, -, -, same⟩
    subst same
    exact kept.trans ⟨rfl, rfl⟩
  exact ByteMemory.copy_keeps keeps (.refl mm) copied

theorem forkCopyPage_bookkept {heapPages : Int} {frames : List Nat} {index : Nat}
    (copied : forkCopyPage child father heapPages frames index mm = .ok after) :
    Bookkept mm after := by
  rcases bind_eq_ok.mp copied with ⟨mapped, first, rest⟩
  rcases bind_eq_ok.mp rest with ⟨opened, second, rest⟩
  rcases bind_eq_ok.mp rest with ⟨filled, third, last⟩
  exact (((setSsPag_bookkept first).trans (setSsPag_bookkept second)).trans
    (copyData_bookkept third)).trans (delSsPag_bookkept last)

theorem forkPages_bookkept {enough : Bool}
    (forked : forkPages child father slot mm = .ok (after, enough)) : Bookkept mm after := by
  rcases bind_eq_ok.mp forked with ⟨shared, share, rest⟩
  have before := forkShare_bookkept share
  dsimp only at rest
  cases allocation : allocFrames (numPagData + shared.pagHeap slot).toNat shared [] with
  | mk middle result =>
      have taken := before.trans (allocFrames_bookkept allocation)
      rw [allocation] at rest
      cases result with
      | none =>
          cases rest
          exact taken
      | some frames =>
          rcases bind_eq_ok.mp rest with ⟨copied, loop, same⟩
          cases same
          exact taken.trans (loop_bookkept (fun _ _ _ => forkCopyPage_bookkept) loop)

theorem sbrkGrow_bookkept {endaddress : Nat} {enough : Bool}
    (grown : sbrkGrow pt slot endaddress mm = .ok (after, enough)) : Bookkept mm after := by
  generalize growth : sbrkGrowth (mm.programbreakTable slot) endaddress = grows
  rcases grows with ⟨npages, tpentry⟩
  rcases sbrkGrow_inv growth grown with ⟨-, allocation⟩ | ⟨-, -, middle, frames, allocation, loop⟩
  · exact allocFrames_bookkept allocation
  · exact (allocFrames_bookkept allocation).trans
      (loop_bookkept (fun _ _ _ => setSsPag_bookkept) loop)

theorem sbrkShrink_bookkept {endaddress : Nat}
    (shrunk : sbrkShrink pt slot endaddress mm = .ok after) : Bookkept mm after := by
  rcases bind_eq_ok.mp shrunk with ⟨middle, loop, last⟩
  have before := loop_bookkept (fun _ _ _ => releasePage_bookkept) loop
  split at last
  · exact before.trans (releasePage_bookkept last)
  · cases last
    exact before

theorem sbrk_counters {increment : Int} {result : Option Nat}
    (moved : mm.sbrk pt slot increment = .ok (after, result)) :
    after.dirCounter = mm.dirCounter ∧
      ∀ other, other ≠ slot → after.programbreakTable other = mm.programbreakTable other := by
  have unmoved : ∀ {middle : Mm}, Bookkept mm middle → middle.dirCounter = mm.dirCounter ∧
      ∀ other, other ≠ slot → middle.programbreakTable other = mm.programbreakTable other := by
    intro middle kept
    exact ⟨kept.dirCounter, fun other _ => congrFun kept.programbreakTable other⟩
  have set : ∀ {middle : Mm} {address : Nat}, Bookkept mm middle →
      (middle.setBreak slot address).dirCounter = mm.dirCounter ∧
        ∀ other, other ≠ slot →
          (middle.setBreak slot address).programbreakTable other = mm.programbreakTable other := by
    intro middle address kept
    apply And.intro kept.dirCounter
    intro other different
    exact (Function.update_of_ne different _ _).trans (congrFun kept.programbreakTable other)
  unfold sbrk at moved
  dsimp only at moved
  split at moved
  · cases moved
    exact unmoved (.refl mm)
  · split at moved
    · rcases bind_eq_ok.mp moved with ⟨⟨grown, enough⟩, grows, rest⟩
      have kept := sbrkGrow_bookkept grows
      cases enough with
      | false =>
          cases rest
          exact unmoved kept
      | true =>
          cases rest
          exact set kept
    · split at moved
      · rcases bind_eq_ok.mp moved with ⟨shrunk, shrinks, rest⟩
        cases rest
        exact set (sbrkShrink_bookkept shrinks)
      · cases moved
        exact set (.refl mm)

theorem releaseDir_counters (released : mm.releaseDir pt slot = .ok after) :
    after.dirCounter = Function.update mm.dirCounter pt (mm.dirCounter pt - 1) ∧
      after.programbreakTable = mm.programbreakTable := by
  let counted := { mm with dirCounter := Function.update mm.dirCounter pt (mm.dirCounter pt - 1) }
  change (if counted.dirCounter pt = 0 then counted.freeUserPages pt slot else .ok counted) =
    .ok after at released
  split at released
  · have kept := freeUserPages_bookkept released
    exact ⟨kept.dirCounter, kept.programbreakTable⟩
  · rw [← Except.ok.inj released]
    exact ⟨rfl, rfl⟩

end Routines

/-! ## The directory a fork takes -/

theorem freeSlot_some {mm : Mm} {slot : DirSlot} (found : mm.freeSlot = some slot) :
    mm.dirCounter slot = 0 := by
  simpa using List.find?_some found

theorem allocateDir_some {mm : Mm} {slot : DirSlot} (found : mm.freeSlot = some slot) :
    mm.allocateDir.1 = { mm with dirCounter := Function.update mm.dirCounter slot 1 } := by
  rw [allocateDir, found]

theorem allocateDir_none {mm : Mm} (missing : mm.freeSlot = none) : mm.allocateDir.1 = mm := by
  rw [allocateDir, missing]

end Mm

/-! ## Users of directories -/

namespace Processes

/-- The tasks that use a directory and are not free: those alive, and those that a
fork without memory has lost. -/
def users (view : Processes) (slot : DirSlot) : Finset TaskId :=
  Finset.univ.filter fun t => t ∉ view.freequeue ∧ view.posInDirCounter t = slot

theorem mem_users {view : Processes} {slot : DirSlot} {t : TaskId} :
    t ∈ view.users slot ↔ t ∉ view.freequeue ∧ view.posInDirCounter t = slot := by
  simp [users]

/-- The directory of a task has the number in its structure, and the first directory
is taken but not used. -/
structure Reserved (view : Processes) : Prop where
  paired : ∀ t, t ∉ view.freequeue → view.dirPagesBaseAddr t = view.posInDirCounter t
  unused : ∀ t, t ∉ view.freequeue → view.posInDirCounter t ≠ 0
  taken : view.mm.dirCounter 0 = 1

variable {view after : Processes} {caller child : TaskId} {rest : List TaskId}

theorem Reserved.add (reserved : view.Reserved) (free : view.freequeue = child :: rest)
    {slot : DirSlot} (other : slot ≠ 0) (freequeue : after.freequeue = rest)
    (directories : after.dirPagesBaseAddr = Function.update view.dirPagesBaseAddr child slot)
    (positions : after.posInDirCounter = Function.update view.posInDirCounter child slot)
    (counter : after.mm.dirCounter 0 = view.mm.dirCounter 0) : after.Reserved := by
  have earlier : ∀ {t}, t ∉ after.freequeue → t ≠ child → t ∉ view.freequeue := by
    intro t absent different
    rw [freequeue] at absent
    simp [free, different, absent]
  refine ⟨?_, ?_, counter.trans reserved.taken⟩
  · intro t absent
    rw [directories, positions]
    by_cases isChild : t = child
    · simp [isChild]
    · simpa [isChild] using reserved.paired t (earlier absent isChild)
  · intro t absent
    rw [positions]
    by_cases isChild : t = child
    · simpa [isChild] using other
    · simpa [isChild] using reserved.unused t (earlier absent isChild)

theorem Reserved.fork (reserved : view.Reserved) (sound : view.Sound caller) {mm : Mm}
    {enough : Bool} (forked : view.forkPages caller = .ok (mm, enough)) :
    mm.dirCounter 0 = view.mm.dirCounter 0 ∧ mm.dirCounter = view.mm.allocateDir.1.dirCounter ∧
      view.newSlot (view.dirPagesBaseAddr caller) = view.newSlot (view.posInDirCounter caller) ∧
      view.newSlot (view.posInDirCounter caller) ≠ 0 := by
  have kept := (Mm.forkPages_bookkept forked).dirCounter
  have allocated := sound.liveNotFree sound.callerLive
  unfold newSlot
  rw [kept]
  cases found : view.mm.freeSlot with
  | none =>
      rw [Mm.allocateDir_none found]
      exact ⟨rfl, rfl, reserved.paired caller allocated, reserved.unused caller allocated⟩
  | some slot =>
      have free := Mm.freeSlot_some found
      have other : slot ≠ 0 := by
        intro same
        rw [same, reserved.taken] at free
        cases free
      rw [Mm.allocateDir_some found]
      exact ⟨Function.update_of_ne other.symm _ _, rfl, rfl, other⟩

end Processes

open Processes in
theorem ProcessStep.reserved {view after : Processes} {caller : TaskId} {event : Event}
    (sound : view.Sound caller) (step : ProcessStep view caller event after)
    (reserved : view.Reserved) : after.Reserved := by
  have allocated := sound.liveNotFree sound.callerLive
  have paired := reserved.paired caller allocated
  cases step with
  | keeps event after keeps full =>
      refine ⟨?_, ?_, ?_⟩
      · rw [keeps.freequeue, keeps.dirPagesBaseAddr, keeps.posInDirCounter]
        exact reserved.paired
      · rw [keeps.freequeue, keeps.posInDirCounter]
        exact reserved.unused
      · rw [keeps.mm]
        exact reserved.taken
  | noMemory child rest free mm outOfFrames =>
      rcases reserved.fork sound outOfFrames with ⟨counter, -, same, other⟩
      exact reserved.add free other rfl
        (congrArg (Function.update view.dirPagesBaseAddr child) same) rfl counter
  | forked child rest free mm copied =>
      rcases reserved.fork sound copied with ⟨counter, -, same, other⟩
      exact reserved.add free other rfl
        (congrArg (Function.update view.dirPagesBaseAddr child) same) rfl counter
  | cloned function stack child rest free =>
      have other := reserved.unused caller allocated
      exact reserved.add free other rfl
        (congrArg (Function.update view.dirPagesBaseAddr child) paired) rfl
        (Function.update_of_ne other.symm _ _)
  | exited mm freed =>
      have earlier : ∀ {t}, t ∉ view.freequeue ++ [caller] → t ∉ view.freequeue :=
        fun absent member => absent (List.mem_append_left _ member)
      refine ⟨fun t absent => reserved.paired t (earlier absent),
        fun t absent => reserved.unused t (earlier absent), ?_⟩
      have other : (0 : DirSlot) ≠ view.dirPagesBaseAddr caller := by
        rw [paired]
        exact (reserved.unused caller allocated).symm
      change mm.dirCounter 0 = 1
      rw [(Mm.releaseDir_counters freed).1, Function.update_of_ne other]
      exact reserved.taken
  | moved amount mm result outcome =>
      refine ⟨reserved.paired, reserved.unused, ?_⟩
      change mm.dirCounter 0 = 1
      rw [(Mm.sbrk_counters outcome).1]
      exact reserved.taken

theorem boot_dirCounter (machine : Machine) (slot : DirSlot) :
    (machine.bootCore 0 1).mm.dirCounter slot = if slot.val ≤ 2 then 1 else 0 := by
  let counted : Mm :=
    { machine.initialMm with dirCounter := fun slot => if slot.val ≤ 2 then 1 else 0 }
  have frame : (counted.setUserPages 2).dirCounter = counted.dirCounter :=
    (Mm.setUserPages_frame counted 2).1
  have same : (machine.bootCore 0 1).mm.dirCounter = (counted.setUserPages 2).dirCounter := by
    rw [bootCore_mm]
    rfl
  rw [same, frame]

theorem boot_reserved (machine : Machine) :
    (Kernel.processes ⟨machine.bootCore 0 1, bootSequences⟩).Reserved where
  paired t absent := by
    rcases bootCore_slots machine t with ⟨directory, position⟩
    change ((machine.bootCore 0 1).task t).dirPagesBaseAddr =
      ((machine.bootCore 0 1).task t).posInDirCounter
    rw [directory, position]
  unused t absent := by
    change ((machine.bootCore 0 1).task t).posInDirCounter ≠ 0
    rw [(bootCore_slots machine t).2]
    rcases boot_allocated absent with same | same <;> subst same <;> decide
  taken := boot_dirCounter machine 0

theorem reachable_reserved {machine : Machine} {history : List (Transition SequenceKernel Event)}
    {last : SequenceKernel} (reaches : (checkedZeos machine).Reaches history last) :
    last.processes.Reserved :=
  processes_invariant reaches (boot_reserved machine) fun _ _ sound step reserved =>
    step.reserved sound reserved

/-! ## What the counters count -/

def FindsDirectory (view : Processes) (event : Event) : Prop :=
  event = .fork → view.freequeue ≠ [] → view.mm.freeSlot ≠ none

namespace Processes

def Counted (view : Processes) : Prop :=
  ∀ slot, slot ≠ 0 → view.mm.dirCounter slot = (view.users slot).card

section Users

variable {view after : Processes} {caller child : TaskId} {rest : List TaskId}
    {slot other : DirSlot}

theorem users_congr (freequeue : after.freequeue = view.freequeue)
    (positions : after.posInDirCounter = view.posInDirCounter) : after.users = view.users := by
  funext slot
  unfold users
  rw [freequeue, positions]

theorem card_users_add (free : view.freequeue = child :: rest) (nodup : view.freequeue.Nodup)
    (freequeue : after.freequeue = rest)
    (positions : after.posInDirCounter = Function.update view.posInDirCounter child slot) :
    ((after.users other).card : Int) =
      (view.users other).card + if other = slot then 1 else 0 := by
  rw [free, List.nodup_cons] at nodup
  have member : ∀ t, t ∈ after.users other ↔
      (t = child ∧ other = slot) ∨ t ∈ view.users other := by
    intro t
    rw [mem_users, mem_users, freequeue, positions, free, List.mem_cons]
    by_cases isChild : t = child
    · subst isChild
      rw [Function.update_self]
      constructor
      · rintro ⟨-, same⟩
        exact .inl ⟨rfl, same.symm⟩
      · rintro (⟨-, same⟩ | ⟨absent, -⟩)
        · exact ⟨nodup.1, same.symm⟩
        · exact absurd (.inl rfl) absent
    · rw [Function.update_of_ne isChild]
      simp [isChild]
  have fresh : child ∉ view.users other := by
    intro old
    exact (mem_users.mp old).1 (by rw [free]; exact List.mem_cons_self)
  by_cases here : other = slot
  · rw [if_pos here]
    have inserted : after.users other = insert child (view.users other) := by
      ext t
      rw [member, Finset.mem_insert]
      simp [here]
    rw [inserted, Finset.card_insert_of_notMem fresh]
    omega
  · rw [if_neg here]
    have unchanged : after.users other = view.users other := by
      ext t
      rw [member]
      simp [here]
    rw [unchanged, Int.add_zero]

theorem card_users_remove (allocated : caller ∉ view.freequeue)
    (freequeue : after.freequeue = view.freequeue ++ [caller])
    (positions : after.posInDirCounter = view.posInDirCounter) :
    ((after.users other).card : Int) =
      (view.users other).card - if other = view.posInDirCounter caller then 1 else 0 := by
  have removed : after.users other = (view.users other).erase caller := by
    ext t
    rw [Finset.mem_erase, mem_users, mem_users, freequeue, positions, List.mem_append,
      List.mem_singleton, not_or]
    tauto
  rw [removed]
  by_cases here : other = view.posInDirCounter caller
  · rw [if_pos here]
    have member : caller ∈ view.users other := mem_users.mpr ⟨allocated, here.symm⟩
    have positive : 0 < (view.users other).card := Finset.card_pos.mpr ⟨caller, member⟩
    rw [Finset.card_erase_of_mem member]
    omega
  · rw [if_neg here, Int.sub_zero, Finset.erase_eq_of_notMem]
    intro member
    exact here (mem_users.mp member).2.symm

end Users

variable {view : Processes} {caller child : TaskId} {rest : List TaskId}

theorem Counted.fork (counted : view.Counted) (reserved : view.Reserved)
    (free : view.freequeue = child :: rest) (sound : view.Sound caller)
    (found : view.mm.freeSlot ≠ none) {mm : Mm} {enough : Bool}
    (forked : view.forkPages caller = .ok (mm, enough)) {after : Processes}
    (memory : after.mm = mm) (freequeue : after.freequeue = rest)
    (positions : after.posInDirCounter = Function.update view.posInDirCounter child
      (view.newSlot (view.posInDirCounter caller))) : after.Counted := by
  rcases reserved.fork sound forked with ⟨-, counters, -, -⟩
  rcases Option.ne_none_iff_exists'.mp found with ⟨slot, found⟩
  have taken : view.newSlot (view.posInDirCounter caller) = slot := by
    rw [newSlot, found]
    rfl
  rw [taken] at positions
  intro other notFirst
  rw [card_users_add free sound.freeNodup freequeue positions, memory, counters,
    Mm.allocateDir_some found]
  have before := counted other notFirst
  by_cases here : other = slot
  · subst here
    rw [Mm.freeSlot_some found] at before
    rw [if_pos rfl, ← before]
    exact Function.update_self _ _ _
  · rw [if_neg here, ← before, Int.add_zero]
    exact Function.update_of_ne here _ _

end Processes

open Processes in
theorem ProcessStep.counted {view after : Processes} {caller : TaskId} {event : Event}
    (sound : view.Sound caller) (step : ProcessStep view caller event after)
    (finds : FindsDirectory view event) (reserved : view.Reserved) (counted : view.Counted) :
    after.Counted := by
  have allocated := sound.liveNotFree sound.callerLive
  cases step with
  | keeps event after keeps full =>
      intro slot notFirst
      rw [users_congr keeps.freequeue keeps.posInDirCounter, keeps.mm]
      exact counted slot notFirst
  | noMemory child rest free mm outOfFrames =>
      have found := finds rfl (by simp [free])
      exact counted.fork reserved free sound found outOfFrames rfl rfl rfl
  | forked child rest free mm copied =>
      have found := finds rfl (by simp [free])
      exact counted.fork reserved free sound found copied rfl rfl rfl
  | cloned function stack child rest free =>
      intro slot notFirst
      have users := @card_users_add view (view.addCloned caller child rest) child rest
        (view.posInDirCounter caller) slot free sound.freeNodup rfl rfl
      rw [users]
      change Function.update view.mm.dirCounter _ _ slot = _
      by_cases here : slot = view.posInDirCounter caller
      · rw [if_pos here, ← counted slot notFirst, here, Function.update_self]
      · rw [if_neg here, Int.add_zero, Function.update_of_ne here]
        exact counted slot notFirst
  | exited mm freed =>
      intro slot notFirst
      have users := @card_users_remove view (view.removeExited caller mm) caller slot allocated
        rfl rfl
      rw [users]
      change mm.dirCounter slot = _
      rw [(Mm.releaseDir_counters freed).1, reserved.paired caller allocated]
      by_cases here : slot = view.posInDirCounter caller
      · rw [if_pos here, ← counted slot notFirst, here, Function.update_self]
      · rw [if_neg here, Int.sub_zero, Function.update_of_ne here]
        exact counted slot notFirst
  | moved amount mm result outcome =>
      intro slot notFirst
      change mm.dirCounter slot = _
      rw [(Mm.sbrk_counters outcome).1]
      exact counted slot notFirst

theorem boot_counted (machine : Machine) :
    (Kernel.processes ⟨machine.bootCore 0 1, bootSequences⟩).Counted := by
  intro slot notFirst
  have users : (Kernel.processes ⟨machine.bootCore 0 1, bootSequences⟩).users slot =
      Finset.univ.filter fun t : TaskId => t ∉ bootSequences.elements .freequeue ∧
        (if t = 0 then 1 else if t = 1 then 2 else 0) = slot := by
    ext t
    rw [Processes.mem_users, Finset.mem_filter]
    change _ ∧ ((machine.bootCore 0 1).task t).posInDirCounter = slot ↔ _
    rw [(bootCore_slots machine t).2]
    simp [Kernel.processes]
  rw [users]
  change (machine.bootCore 0 1).mm.dirCounter slot = _
  rw [boot_dirCounter]
  clear users
  revert slot
  decide +kernel

theorem counted_of_reaches {machine : Machine} {history : List (Transition SequenceKernel Event)}
    {last : SequenceKernel} (reaches : (checkedZeos machine).Reaches history last)
    (finds : ∀ transition ∈ history,
      FindsDirectory transition.before.processes transition.label) :
    last.processes.Counted := by
  have both : last.processes.Reserved ∧ last.processes.Counted := by
    apply @processes_invariant _ _ _ (fun view => view.Reserved ∧ view.Counted) reaches
      ⟨boot_reserved machine, boot_counted machine⟩
    intro transition member sound step kept
    exact ⟨step.reserved sound kept.1,
      step.counted sound (finds transition member) kept.1 kept.2⟩
  exact both.2

/-! ## The first counter -/

/-- In no reachable state do the counters of all directories say how many tasks that
are not free use them: the first is one too high. -/
theorem directoriesMiscounted {machine : Machine} {kernel : PointerKernel}
    (reachable : (zeos machine).Reachable kernel) :
    ¬∀ slot, kernel.core.mm.dirCounter slot = (kernel.toSequences.processes.users slot).card := by
  rcases reachable with ⟨history, reaches⟩
  have reserved := reachable_reserved (run_toSequences reaches).2
  intro counted
  have nobody : kernel.toSequences.processes.users 0 = ∅ := by
    apply Finset.eq_empty_of_forall_notMem
    intro t member
    rcases Processes.mem_users.mp member with ⟨allocated, position⟩
    exact reserved.unused t allocated position
  have taken : kernel.core.mm.dirCounter 0 = 1 := reserved.taken
  have first := counted 0
  rw [nobody, taken] at first
  cases first

/-- A thread more does not change that. -/
theorem directoriesMiscounted_clone :
    ∃ history last, (zeos Machine.sample).Reaches history last ∧ history.length = 1 ∧
      ¬∀ slot, last.core.mm.dirCounter slot =
        (last.toSequences.processes.users slot).card := by
  have computed : (replay [.clone 1048576 1081344] ⟨Machine.sample.bootCore 0 1, bootLinks⟩).any
      (fun run => decide (run.1.length = 1)) = true := by
    decide +kernel
  rcases reaches_of_replay computed with ⟨history, last, reaches, found⟩
  exact ⟨history, last, reaches, of_decide_eq_true found, directoriesMiscounted reaches.reachable⟩

/-- Nobody uses the directory that start-up takes for `task[0]`. -/
theorem directories_boot :
    ¬∀ slot, (Machine.sample.bootCore 0 1).mm.dirCounter slot =
      ((Kernel.processes ⟨Machine.sample.bootCore 0 1, bootSequences⟩).users slot).card := by
  intro counted
  have nobody : (Kernel.processes ⟨Machine.sample.bootCore 0 1, bootSequences⟩).users 0 = ∅ := by
    decide +kernel
  have first := counted 0
  rw [nobody, boot_dirCounter] at first
  cases first

end Zeos
