import Zeos.Suspension
import Zeos.Tables

/-! # Stores through user pointers

Which bytes `sys_read` and `sys_get_stats` store through the pointer of their
caller, and where these lie.
-/

namespace Zeos

open Foundation Kernel

structure Block where
  address : Nat
  length : Nat

def Block.none : Block := ⟨0, 0⟩

def Block.page (block : Block) (k : Nat) : Nat := toUnsigned (block.address + k) / pageSize

instance (fd : Int) (buffer : Nat) (count : Int) : Decidable (ReadAccepted fd buffer count) :=
  inferInstanceAs (Decidable (_ ∧ _))

/-- The call passes the checks of `sys_get_stats` and finds the process. -/
def Core.StatsAccepted (core : Core) (pid : Int) (st : Nat) : Prop :=
  st ≠ 0 ∧ accessOk false st 28 = true ∧ 0 ≤ pid ∧ ∃ t, (core.task t).pid = pid

instance (core : Core) (pid : Int) (st : Nat) : Decidable (core.StatsAccepted pid st) :=
  inferInstanceAs (Decidable (_ ∧ _))

/-- What the loop of `sys_read_keyboard` takes from position `i` on, before it ends
or sees no more characters. -/
def Circbuff.supplies (ring : Circbuff) (buffer : Nat) (count i : Int) : Block :=
  ⟨toUnsigned (buffer + i), min (count - i).toNat ring.visible⟩

def Circbuff.resumes (ring : Circbuff) : Option Frame → Block
  | some (.sysReadLoop buffer count i) => ring.supplies buffer count i
  | _ => .none

section Definitions

variable {σ : Type} [ListOps σ Queue TaskId]

/-- What the kernel sets out to store in a step through a user pointer. -/
def Kernel.userStore (kernel : Kernel σ) : Event → Block
  | .read fd buffer count i =>
      if ReadAccepted fd buffer count ∧ kernel.isEmpty .keyboardqueue = true then
        kernel.core.circbuff.supplies buffer count i
      else .none
  | .resume => kernel.core.circbuff.resumes (topFrame kernel.currentTask.kernelEsp)
  | .getStats pid st => if kernel.core.StatsAccepted pid st then ⟨st, 28⟩ else .none
  | _ => .none

/-- The calls with such a pointer, and what may be the rest of one. -/
def Event.UserPointer : Event → Prop
  | .read .. | .getStats .. | .resume => True
  | _ => False

namespace Mm

def Mapped (mm : Mm) (pt : DirSlot) (page : Nat) : Prop :=
  page < totalPages ∧ (mm.pagusrTable pt page).present = true

instance (mm : Mm) (pt : DirSlot) (page : Nat) : Decidable (mm.Mapped pt page) :=
  inferInstanceAs (Decidable (_ ∧ _))

def Writable (mm : Mm) (pt : DirSlot) (page : Nat) : Prop :=
  pagLogInitData ≤ page ∧ mm.Mapped pt page ∧ (mm.pagusrTable pt page).rw = true ∧
    (mm.pagusrTable pt page).user = true

end Mm

theorem userStore_read (kernel : Kernel σ) (fd : Int) (buffer : Nat) (count i : Int) :
    kernel.userStore (.read fd buffer count i) =
      if ReadAccepted fd buffer count ∧ kernel.isEmpty .keyboardqueue = true then
        kernel.core.circbuff.supplies buffer count i
      else .none := rfl

theorem userStore_getStats (kernel : Kernel σ) (pid : Int) (st : Nat) :
    kernel.userStore (.getStats pid st) =
      if kernel.core.StatsAccepted pid st then ⟨st, 28⟩ else .none := rfl

/-- In a step the kernel stores exactly the given bytes, none of them for a call
that returns an error, and all of them where the caller may write. -/
structure Confined (kernel : Kernel σ) (event : Event) : Prop where
  stores : ∀ after, kernel.execute event = .ok after →
    ∃ bytes : List UInt8, bytes.length = (kernel.userStore event).length ∧
      kernel.core.mm.storeBytes kernel.currentTask.dirPagesBaseAddr
        (kernel.userStore event).address bytes = .ok after.core.mm
  refuses : ∀ after, kernel.execute event = .ok after → after.core.inKernel = false →
    after.currentTask.context.eax ≠ 0 → (kernel.userStore event).length = 0
  writable : ∀ k < (kernel.userStore event).length,
    kernel.core.mm.Writable kernel.currentTask.dirPagesBaseAddr ((kernel.userStore event).page k)

end Definitions

/-! ## What a step stores -/

section Steps

variable {kernel after : SequenceKernel}

/-- The block has been stored, unless the call returned an error; then it is empty. -/
structure Stored (mm : Mm) (pt : DirSlot) (block : Block) (after : SequenceKernel) : Prop where
  stored : ∃ bytes : List UInt8, bytes.length = block.length ∧
    mm.storeBytes pt block.address bytes = .ok after.core.mm
  refused : after.core.inKernel = false → after.currentTask.context.eax ≠ 0 → block.length = 0

theorem Stored.nothing {mm : Mm} {pt : DirSlot} (same : after.core.mm = mm) :
    Stored mm pt .none after :=
  ⟨⟨[], rfl, by rw [same]; rfl⟩, fun _ _ => rfl⟩

theorem LoopOutcome.stored {buffer : Nat} {count i : Int}
    {outcome : SequenceKernel × Option Int} (loop : LoopOutcome kernel buffer count i outcome) :
    Stored kernel.core.mm kernel.currentTask.dirPagesBaseAddr
      (kernel.core.circbuff.supplies buffer count i) (finishCall outcome) := by
  cases loop with
  | finished taken core takes complete =>
      have enough := takes.enough
      have length : taken.length = min (count - i).toNat kernel.core.circbuff.visible := by
        rcases complete with complete | ⟨nothing, expired⟩
        · omega
        · rw [nothing, List.length_nil]
          omega
      constructor
      · exists taken, length
        rw [finishCall_mm]
        exact takes.stored
      · intro _ error
        exact absurd (finishCall_eax _ 0) error
  | waits taken core takes more drained =>
      have enough := takes.enough
      have length : taken.length = min (count - i).toNat kernel.core.circbuff.visible := by
        have left : core.circbuff.visible = kernel.core.circbuff.visible - taken.length := by
          rw [takes.rest]
          exact Circbuff.pops_visible enough
        omega
      constructor
      · exists taken, length
        rw [finishCall_mm, (parkFront_frame _ _ _).1]
        exact takes.stored
      · intro userMode
        rw [show (finishCall (parkFront ⟨core, kernel.queues⟩ .keyboardqueue _, none)).core.inKernel
          = true from (parkFront_frame _ _ _).2.2.2.2] at userMode
        cases userMode

theorem ReadCall.stored {fd : Int} {buffer : Nat} {count i : Int}
    {outcome : SequenceKernel × Option Int} (call : ReadCall kernel fd buffer count i outcome) :
    Stored kernel.core.mm kernel.currentTask.dirPagesBaseAddr
      (kernel.userStore (.read fd buffer count i)) (finishCall outcome) := by
  cases call with
  | refused error positive invalid =>
      rw [userStore, if_neg fun passes => invalid passes.1]
      exact .nothing (finishCall_mm _)
  | loops accepted alone outcome loop =>
      rw [userStore, if_pos ⟨accepted, isEmpty_iff.mpr alone⟩]
      exact loop.stored
  | queued accepted behind =>
      rw [userStore, if_neg fun accepted => behind (isEmpty_iff.mp accepted.2)]
      apply Stored.nothing
      rw [finishCall_mm, (parkTail_frame _ _ _).1]
      rfl

theorem resumes_none {ring : Circbuff} {frame : Option Frame}
    (notLoop : ∀ buffer count i, frame ≠ some (.sysReadLoop buffer count i)) :
    ring.resumes frame = .none := by
  unfold Circbuff.resumes
  split
  · exact absurd rfl (notLoop _ _ _)
  · rfl

theorem ResumeOutcome.stored (outcome : ResumeOutcome kernel after) :
    Stored kernel.core.mm kernel.currentTask.dirPagesBaseAddr (kernel.userStore .resume) after := by
  unfold userStore
  cases outcome with
  | idles top =>
      rw [resumes_none fun _ _ _ reading => nomatch top _ reading]
      exact .nothing rfl
  | interrupt frame top kind =>
      have notLoop : ∀ buffer count i, frame ≠ .sysReadLoop buffer count i := by
        rcases kind with kind | kind <;> simp [kind]
      rw [top, resumes_none fun _ _ _ same => notLoop _ _ _ (Option.some.inj same)]
      exact .nothing (by simp [mapCore])
  | returns frame top kind =>
      have notLoop : ∀ buffer count i, frame ≠ .sysReadLoop buffer count i := by
        rcases kind with kind | kind | kind <;> simp [kind]
      rw [top, resumes_none fun _ _ _ same => notLoop _ _ _ (Option.some.inj same)]
      exact .nothing (finishCall_mm _)
  | waited top =>
      rw [top]
      apply Stored.nothing
      rw [finishCall_mm]
      rfl
  | reads buffer count i top outcome loop =>
      rw [top]
      exact loop.stored

theorem sysGetStats_result {pid : Int} {st : Nat} {outcome : SequenceKernel × Int}
    (finished : kernel.sysGetStats pid st = .ok outcome) :
    outcome.2 = 0 ↔ kernel.core.StatsAccepted pid st := by
  unfold sysGetStats at finished
  split at finished
  · rename_i invalid
    cases finished
    constructor
    · intro zero
      cases zero
    · rintro ⟨notNull, accepted, -⟩
      rcases invalid with null | refused
      · exact absurd null notNull
      · exact absurd accepted (Bool.eq_false_iff.mp refused)
  · rename_i valid
    rw [not_or, Bool.not_eq_false] at valid
    split at finished
    · rename_i negative
      cases finished
      constructor
      · intro zero
        cases zero
      · rintro ⟨-, -, notNegative, -⟩
        exact absurd negative (Int.not_lt.mpr notNegative)
    · rename_i notNegative
      split at finished
      · rename_i missing
        cases finished
        constructor
        · intro zero
          cases zero
        · rintro ⟨-, -, -, t, found⟩
          have absent := List.find?_eq_none.mp missing t (List.mem_finRange t)
          exact absurd found (by simpa using absent)
      · rename_i t found
        rcases bind_eq_ok.mp finished with ⟨mm, -, result⟩
        cases result
        have pids : (kernel.core.task t).pid = pid := by
          simpa using List.find?_some found
        exact ⟨fun _ => ⟨valid.1, valid.2, Int.not_lt.mp notNegative, t, pids⟩, fun _ => rfl⟩

theorem StatsOutcome.stores {pid : Int} {st : Nat} {outcome : SequenceKernel × Int}
    (told : StatsOutcome kernel pid st outcome)
    (accepts : outcome.2 = 0 ↔ kernel.core.StatsAccepted pid st) :
    Stored kernel.core.mm kernel.currentTask.dirPagesBaseAddr
      (kernel.userStore (.getStats pid st)) (finishCall (outcome.1, some outcome.2)) := by
  cases told with
  | refused error positive =>
      have failed : error ≠ 0 := by omega
      rw [userStore, if_neg fun accepted => failed (accepts.mpr accepted)]
      exact .nothing (finishCall_mm _)
  | stored t found notNegative accepted mm stored =>
      rw [userStore, if_pos (accepts.mp rfl)]
      constructor
      · exact ⟨_, Stats.bytes_length _, stored⟩
      · intro _ error
        exact absurd (finishCall_eax _ 0) error

theorem Entry.userStore {event : Event} {core : Core} (entry : Entry event kernel.core core)
    (call : Event) : Kernel.userStore ⟨core, kernel.queues⟩ call = kernel.userStore call := by
  have frames : (core.task core.current).kernelEsp =
      (kernel.core.task kernel.core.current).kernelEsp := by
    rw [entry.task, entry.current]
  have pids : ∀ t, (core.task t).pid = (kernel.core.task t).pid := by
    intro t
    rw [entry.task]
  have accepted : ∀ pid st, core.StatsAccepted pid st ↔ kernel.core.StatsAccepted pid st := by
    intro pid st
    simp only [Core.StatsAccepted, pids]
  cases call <;> simp only [Kernel.userStore, currentTask, frames, entry.circbuff, accepted]
  rfl

theorem Entry.stored {event : Event} {core : Core} (entry : Entry event kernel.core core)
    (stored : Stored core.mm (core.task core.current).dirPagesBaseAddr
      (Kernel.userStore ⟨core, kernel.queues⟩ event) after) :
    Stored kernel.core.mm kernel.currentTask.dirPagesBaseAddr (kernel.userStore event) after := by
  have directory : (core.task core.current).dirPagesBaseAddr =
      kernel.currentTask.dirPagesBaseAddr := by
    rw [entry.task, entry.current]
    rfl
  rwa [entry.userStore, directory, entry.mm] at stored

theorem execute_getStats (inUserMode : kernel.core.inKernel = false) {pid : Int} {st : Nat}
    (executed : kernel.execute (.getStats pid st) = .ok after) :
    Stored kernel.core.mm kernel.currentTask.dirPagesBaseAddr
      (kernel.userStore (.getStats pid st)) after := by
  rcases bind_eq_ok.mp executed with ⟨outcome, returned, finished⟩
  rcases bind_eq_ok.mp returned with ⟨told, computed, result⟩
  cases result
  cases finished
  have stats := (sysGetStats_outcome _ pid st).of_ok computed
  have same : SameButStats kernel.core.enterSystem (kernel.core.entered (.getStats pid st)) :=
    enterSystem_entered inUserMode Event.noConfusion
  exact same.entry.stored (stats.stores (sysGetStats_result computed))

theorem execute_stored (disciplined : Disciplined kernel) {event : Event}
    (enabled : event.Enabled kernel.core) (pointer : event.UserPointer)
    (executed : kernel.execute event = .ok after) :
    Stored kernel.core.mm kernel.currentTask.dirPagesBaseAddr (kernel.userStore event) after := by
  rcases (execute_effect disciplined enabled).of_ok executed with ⟨core, same, effect⟩
  cases effect with
  | resume outcome => exact same.entry.stored outcome.stored
  | read fd buffer count i call => exact same.entry.stored call.stored
  | getStats pid st told => exact execute_getStats (enabled.inUserMode Event.noConfusion) executed
  | _ => cases pointer

end Steps

/-! ## Where it is stored -/

theorem toUnsigned_lt (value : Int) : toUnsigned value < 4294967296 := by
  unfold toUnsigned
  omega

theorem toUnsigned_of_lt {address : Nat} (inside : address < 4294967296) :
    toUnsigned address = address := by
  unfold toUnsigned
  omega

section Blocks

variable {mm : Mm} {pt : DirSlot} {block : Block}

theorem Block.unwrapped (inside : block.address < 4294967296)
    (mapped : ∀ k < block.length, mm.Mapped pt (block.page k)) :
    ∀ k < block.length, block.address + k < 4294967296 := by
  intro k within
  induction k with
  | zero => exact inside
  | succ k induction =>
      have here := induction (by omega)
      have page : toUnsigned ((block.address + k : Nat) : Int) / pageSize < totalPages :=
        (mapped k (by omega)).1
      rcases memoryMap with ⟨pages, -, -, -, -, -, -, size⟩
      rw [toUnsigned_of_lt here, pages, size] at page
      omega

theorem Block.page_eq (inside : block.address < 4294967296)
    (mapped : ∀ k < block.length, mm.Mapped pt (block.page k)) {k : Nat}
    (within : k < block.length) : block.page k = (block.address + k) / pageSize := by
  have address : toUnsigned ((block.address + k : Nat) : Int) = block.address + k :=
    toUnsigned_of_lt (block.unwrapped inside mapped k within)
  exact congrArg (· / pageSize) address

theorem Block.writable_iff (guarded : mm.Guarded) (inside : block.address < 4294967296) :
    (∀ k < block.length, mm.Writable pt (block.page k)) ↔
      block.length = 0 ∨ pagLogInitData * pageSize ≤ block.address ∧
        ∀ k < block.length, mm.Mapped pt (block.page k) := by
  have positive : 0 < pageSize := by decide
  constructor
  · intro writable
    rcases Nat.eq_zero_or_pos block.length with empty | some
    · exact .inl empty
    · apply Or.inr
      have mapped : ∀ k < block.length, mm.Mapped pt (block.page k) :=
        fun k within => (writable k within).2.1
      have first := (writable 0 some).1
      rw [block.page_eq inside mapped some, Nat.add_zero, Nat.le_div_iff_mul_le positive] at first
      exact ⟨first, mapped⟩
  · rintro (empty | ⟨above, mapped⟩) k within
    · omega
    · have page : pagLogInitData ≤ block.page k := by
        rw [block.page_eq inside mapped within, Nat.le_div_iff_mul_le positive]
        exact Nat.le_trans above (Nat.le_add_right _ _)
      have code : pagLogInitCode ≤ block.page k :=
        Nat.le_trans (Nat.le_add_right pagLogInitCode numPagCode) page
      have flags := guarded pt (block.page k) code (mapped k within).2
      exact ⟨page, mapped k within, flags.2 page, flags.1⟩

end Blocks

theorem supplies_inside (ring : Circbuff) (buffer : Nat) (count i : Int) :
    (ring.supplies buffer count i).address < 4294967296 :=
  toUnsigned_lt _

theorem none_inside : Block.none.address < 4294967296 := by
  decide

theorem userStore_inside {σ : Type} [ListOps σ Queue TaskId] (kernel : Kernel σ) {event : Event}
    (typed : event.WellTyped) : (kernel.userStore event).address < 4294967296 := by
  cases event with
  | read fd buffer count i =>
      rw [userStore_read]
      split
      · exact supplies_inside _ _ _ _
      · exact none_inside
  | resume =>
      change (kernel.core.circbuff.resumes _).address < _
      unfold Circbuff.resumes
      split
      · exact supplies_inside _ _ _ _
      · exact none_inside
  | getStats pid st =>
      rw [userStore_getStats]
      split
      · exact typed.2
      · exact none_inside
  | _ => exact none_inside

/-- The stores of a call are confined exactly when there are none, or they start in
the data region or above and meet only pages that are mapped. -/
theorem storesConfined {machine : Machine} {kernel : PointerKernel}
    (reachable : (zeos machine).Reachable kernel) {event : Event}
    (enabled : event.Enabled kernel.core) (pointer : event.UserPointer) :
    Confined kernel event ↔
      (kernel.userStore event).length = 0 ∨
        pagLogInitData * pageSize ≤ (kernel.userStore event).address ∧
          ∀ k < (kernel.userStore event).length,
            kernel.core.mm.Mapped kernel.currentTask.dirPagesBaseAddr
              ((kernel.userStore event).page k) := by
  rcases reachable with ⟨history, reaches⟩
  rcases run_toSequences reaches with ⟨mirrored, sequences⟩
  have guarded : kernel.core.mm.Guarded := reachable_guarded sequences
  have inside := userStore_inside kernel enabled.1
  rw [← Block.writable_iff guarded inside]
  constructor
  · exact Confined.writable
  · intro writable
    have same : kernel.toSequences.userStore event = kernel.userStore event := by
      have empty := mirrored.represents.isEmpty .keyboardqueue
      cases event <;> simp only [Kernel.userStore, empty] <;> rfl
    have stored : ∀ after, kernel.execute event = .ok after →
        Stored kernel.core.mm kernel.currentTask.dirPagesBaseAddr (kernel.userStore event)
          after.toSequences := by
      intro after executed
      have run := ((mirrored.execute enabled).1 after executed).2
      rw [← same]
      exact execute_stored mirrored.disciplined enabled pointer run
    exact ⟨fun after executed => (stored after executed).stored,
      fun after executed => (stored after executed).refused, writable⟩

theorem booted_reachable (machine : Machine) :
    (zeos machine).Reachable ⟨machine.bootCore 0 1, bootLinks⟩ :=
  ⟨[], _, boot_pointers machine, .nil⟩

/-- Task 1 asks for its own statistics, in its first data page. -/
theorem storesConfined_data :
    Confined (⟨Machine.sample.bootCore 0 1, bootLinks⟩ : PointerKernel)
      (.getStats 1 (264 * 4096)) := by
  have pointer : Event.UserPointer (.getStats 1 (264 * 4096)) := trivial
  apply (storesConfined (booted_reachable Machine.sample) (by decide +kernel) pointer).mpr
  decide +kernel

/-- The call that returns 0 and has changed a byte of the first code page. -/
theorem storesConfined_code :
    ∃ kernel after : PointerKernel, (zeos Machine.sample).Reachable kernel ∧
      (zeos Machine.sample).step kernel (.getStats 1 (256 * 4096)) after ∧
      after.currentTask.context.eax = 0 ∧
      Mm.loadByte kernel.currentTask.dirPagesBaseAddr kernel.core.mm (256 * 4096 + 24) ≠
        Mm.loadByte kernel.currentTask.dirPagesBaseAddr after.core.mm (256 * 4096 + 24) ∧
      ¬Confined kernel (.getStats 1 (256 * 4096)) := by
  let booted : PointerKernel := ⟨Machine.sample.bootCore 0 1, bootLinks⟩
  let code : Event := .getStats 1 (256 * 4096)
  have computed : (booted.execute code).toOption.any (fun after =>
      decide (after.currentTask.context.eax = 0) &&
        decide (Mm.loadByte booted.currentTask.dirPagesBaseAddr booted.core.mm (256 * 4096 + 24) ≠
          Mm.loadByte booted.currentTask.dirPagesBaseAddr after.core.mm (256 * 4096 + 24))) =
      true := by
    decide +kernel
  have below : ¬pagLogInitData ≤ (booted.userStore code).page 0 := by decide +kernel
  have some : 0 < (booted.userStore code).length := by decide +kernel
  cases executed : booted.execute code with
  | error failure =>
      rw [executed] at computed
      cases computed
  | ok after =>
      rw [executed, Except.toOption, Option.any_some, Bool.and_eq_true, decide_eq_true_eq,
        decide_eq_true_eq] at computed
      exact ⟨booted, after, booted_reachable Machine.sample, ⟨by decide +kernel, executed⟩,
        computed.1, computed.2, fun confined => below (confined.writable 0 some).1⟩

end Zeos
