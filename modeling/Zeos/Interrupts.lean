import Zeos.Circbuff
import Zeos.Outcomes

/-! # Outcomes of input, ticks and resumptions

What the routines do that move characters from the keyboard to readers, that
hand out statistics, that count ticks, and that resume a suspended task.
-/

namespace Zeos

open Foundation Kernel

variable {kernel : SequenceKernel}

/-! ## Storing in user memory -/

theorem storeByte_eq_ok {pt : DirSlot} {mm stored : Mm} {address : Nat} {byte : UInt8}
    (finished : Mm.storeByte pt mm address byte = .ok stored) :
    ∃ ram, stored = { mm with ram := ram } := by
  rcases Mm.storeByte_inv finished with ⟨place, -, -, same⟩
  exact ⟨_, same⟩

theorem storeBytes_eq_ok {pt : DirSlot} {mm stored : Mm} {address : Nat} {bytes : List UInt8}
    (finished : Mm.storeBytes pt address bytes mm = .ok stored) :
    stored = { mm with ram := stored.ram } := by
  induction bytes generalizing mm address with
  | nil =>
      cases finished
      rfl
  | cons byte bytes induction =>
      rcases bind_eq_ok.mp finished with ⟨middle, first, rest⟩
      rcases storeByte_eq_ok first with ⟨ram, equal⟩
      rw [induction rest, equal]

theorem Disciplined.congr (disciplined : Disciplined kernel) {core : Core} (t : TaskId)
    (agrees : AgreesBut t core kernel.core)
    (here : (core.task t).state = (kernel.core.task t).state)
    (current : core.current = kernel.core.current) : Disciplined ⟨core, kernel.queues⟩ :=
  ⟨disciplined.toOrderly.congr agrees here, by rw [current]; exact disciplined.currentUnlinked⟩

theorem Disciplined.withInput (disciplined : Disciplined kernel) (ram : Nat → Nat → UInt8)
    (circbuff : Circbuff) (readers : TaskId → Int) :
    Disciplined ⟨kernel.core.withInput ram circbuff readers, kernel.queues⟩ :=
  disciplined.congr 0 ⟨fun _ _ => rfl, fun _ => id, rfl, rfl⟩ rfl rfl

/-! ## Reading -/

/-- The call passes the checks of `sys_read`. -/
def ReadAccepted (fd : Int) (buffer : Nat) (count : Int) : Prop :=
  fd = 0 ∧ 0 ≤ count ∧ pagLogInitData * pageSize ≤ toSigned buffer ∧ toSigned buffer < heapStart

/-- The oldest characters of the ring moved to `address` and on. -/
structure Core.Takes (core : Core) (pt : DirSlot) (address : Nat) (taken : List UInt8)
    (after : Core) : Prop where
  stored : core.mm.storeBytes pt address taken = .ok after.mm
  oldest : taken = core.circbuff.oldest taken.length
  enough : taken.length ≤ core.circbuff.visible
  rest : after = { core with
    mm := after.mm
    circbuff := core.circbuff.pops taken.length }

/-- The loop of `sys_read_keyboard` from `i`, up to its end or to the point where
it sees no character in the ring. -/
inductive LoopOutcome (kernel : SequenceKernel) (buffer : Nat) (count i : Int) :
    SequenceKernel × Option Int → Prop
  | finished (taken : List UInt8) (core : Core)
      (takes : kernel.core.Takes kernel.currentTask.dirPagesBaseAddr (toUnsigned (buffer + i))
        taken core)
      (complete : i + taken.length = count ∨ taken = [] ∧ count ≤ i) :
      LoopOutcome kernel buffer count i (⟨core, kernel.queues⟩, some 0)
  | waits (taken : List UInt8) (core : Core)
      (takes : kernel.core.Takes kernel.currentTask.dirPagesBaseAddr (toUnsigned (buffer + i))
        taken core)
      (more : i + taken.length < count) (drained : core.circbuff.visible = 0) :
      LoopOutcome kernel buffer count i (parkFront ⟨core, kernel.queues⟩ .keyboardqueue
        [.sysReadLoop buffer count (i + taken.length)], none)

def Kernel.requesting (kernel : SequenceKernel) (count : Int) : SequenceKernel :=
  ⟨{ kernel.core with
      keyboardReadersCount :=
        Function.update kernel.core.keyboardReadersCount kernel.core.current count },
    kernel.queues⟩

inductive ReadCall (kernel : SequenceKernel) (fd : Int) (buffer : Nat) (count i : Int) :
    SequenceKernel × Option Int → Prop
  | refused (error : Int) (positive : 0 < error) (invalid : ¬ReadAccepted fd buffer count) :
      ReadCall kernel fd buffer count i (kernel, some error)
  | loops (accepted : ReadAccepted fd buffer count)
      (alone : kernel.queues.elements .keyboardqueue = [])
      (outcome : SequenceKernel × Option Int)
      (loop : LoopOutcome (kernel.requesting count) buffer count i outcome) :
      ReadCall kernel fd buffer count i outcome
  | queued (accepted : ReadAccepted fd buffer count)
      (behind : kernel.queues.elements .keyboardqueue ≠ []) :
      ReadCall kernel fd buffer count i
        ((kernel.requesting count).parkTail .keyboardqueue [.sysReadQueued], none)

theorem toUnsigned_succ (buffer : Nat) (i : Int) :
    toUnsigned (toUnsigned (buffer + i) + 1) = toUnsigned (buffer + (i + 1)) := by
  unfold toUnsigned
  omega

theorem Core.Takes.nil (core : Core) (pt : DirSlot) (address : Nat) :
    core.Takes pt address [] core :=
  ⟨rfl, rfl, Nat.zero_le _, rfl⟩

theorem Core.Takes.cons {core after : Core} {pt : DirSlot} {buffer : Nat} {i : Int} {mm : Mm}
    {taken : List UInt8}
    (stored : core.mm.storeByte pt (toUnsigned (buffer + i)) core.circbuff.front = .ok mm)
    (sees : core.circbuff.visible ≠ 0)
    (later : Core.Takes { core with mm := mm, circbuff := core.circbuff.pop } pt
      (toUnsigned (buffer + (i + 1))) taken after) :
    core.Takes pt (toUnsigned (buffer + i)) (core.circbuff.front :: taken) after where
  stored := by
    have step : core.mm.storeBytes pt (toUnsigned (buffer + i)) (core.circbuff.front :: taken) =
        (core.mm.storeByte pt (toUnsigned (buffer + i)) core.circbuff.front >>= fun mm =>
          mm.storeBytes pt (toUnsigned (toUnsigned (buffer + i) + 1)) taken) := rfl
    rw [step, stored, ok_bind, toUnsigned_succ]
    exact later.stored
  oldest := by
    rw [List.length_cons, Circbuff.oldest]
    exact congrArg _ later.oldest
  enough := by
    have popped := Circbuff.pop_visible sees
    have enough : taken.length ≤ core.circbuff.pop.visible := later.enough
    rw [List.length_cons]
    omega
  rest := by
    rw [later.rest]
    rfl

theorem LoopOutcome.cons {buffer : Nat} {count i : Int} {mm : Mm}
    {outcome : SequenceKernel × Option Int}
    (stored : kernel.core.mm.storeByte kernel.currentTask.dirPagesBaseAddr
      (toUnsigned (buffer + i)) kernel.core.circbuff.front = .ok mm)
    (sees : kernel.core.circbuff.visible ≠ 0) (wanted : i < count)
    (later : LoopOutcome ⟨{ kernel.core with mm := mm, circbuff := kernel.core.circbuff.pop },
      kernel.queues⟩ buffer count (i + 1) outcome) :
    LoopOutcome kernel buffer count i outcome := by
  cases later with
  | finished taken core takes complete =>
      refine .finished _ core (.cons stored sees takes) (.inl ?_)
      rw [List.length_cons]
      rcases complete with exact' | ⟨none, expired⟩
      · omega
      · rw [none, List.length_nil]
        omega
  | waits taken core takes more drained =>
      have position : i + 1 + taken.length =
          i + (kernel.core.circbuff.front :: taken).length := by
        rw [List.length_cons]
        omega
      rw [position] at more ⊢
      exact .waits _ core (.cons stored sees takes) more drained

theorem readLoop_outcome (disciplined : Disciplined kernel) (buffer : Nat) (count i : Int) :
    Ensures Fault.Elsewhere (LoopOutcome kernel buffer count i)
      (readLoop buffer count i kernel) := by
  generalize measure : (count - i).toNat = rounds
  induction rounds using Nat.strongRecOn generalizing kernel i with
  | ind rounds induction =>
      rw [readLoop]
      by_cases more : i < count
      · rw [if_pos more]
        by_cases unseen : kernel.core.circbuff.visible = 0
        · have empty : kernel.core.circbuff.emptyWord ≠ 0 := fun zero =>
            Circbuff.emptyWord_eq_zero.mp zero unseen
          have parked := parkFront_eq disciplined (rfl : _ = stateWithin .keyboardqueue)
            [.sysReadLoop buffer count i] fun switched => .ok (switched, (none : Option Int))
          have waits := @LoopOutcome.waits kernel buffer count i [] kernel.core
            (.nil kernel.core _ _) (by simpa using more) unseen
          have position : i + (([] : List UInt8).length : Int) = i := Int.add_zero i
          rw [position] at waits
          rw [if_pos empty]
          refine Eq.mpr (congrArg _ parked) ?_
          exact .ok waits
        · have notEmpty := Circbuff.emptyWord_eq_zero.mpr unseen
          rw [if_neg (not_not.mpr notEmpty)]
          unfold popInto
          cases stored : kernel.core.mm.storeByte kernel.currentTask.dirPagesBaseAddr
              (toUnsigned (buffer + i)) kernel.core.circbuff.front with
          | error failure =>
              exact .error (.inl ((Mm.storeByte_failsOnly _ _ _ _).of_error stored))
          | ok mm =>
              rcases storeByte_eq_ok stored with ⟨ram, equal⟩
              have popped : Disciplined ⟨{ kernel.core with
                  mm := mm, circbuff := kernel.core.circbuff.pop }, kernel.queues⟩ := by
                rw [equal]
                exact disciplined.withInput ram _ kernel.core.keyboardReadersCount
              have later := induction (count - (i + 1)).toNat (by omega) popped (i + 1) rfl
              exact later.mono fun _ outcome => outcome.cons stored unseen more
      · rw [if_neg more]
        exact .ok (.finished [] kernel.core (.nil kernel.core _ _)
          (.inr ⟨rfl, Int.not_lt.mp more⟩))

theorem Disciplined.requesting (disciplined : Disciplined kernel) (count : Int) :
    Disciplined (kernel.requesting count) :=
  disciplined.withInput kernel.core.mm.ram kernel.core.circbuff _

theorem sysRead_outcome (disciplined : Disciplined kernel) (fd : Int) (buffer : Nat)
    (count i : Int) :
    Ensures Fault.Elsewhere (ReadCall kernel fd buffer count i)
      (kernel.sysRead fd buffer count i) := by
  unfold sysRead
  by_cases standard : fd = 0
  · subst standard
    rw [if_neg (by decide)]
    by_cases null : buffer = 0
    · rw [if_pos null]
      refine .ok (.refused _ (by decide) fun accepted => ?_)
      have low := accepted.2.2.1
      rw [null] at low
      exact absurd low (by decide)
    · rw [if_neg null]
      by_cases negative : count < 0
      · rw [if_pos negative]
        exact .ok (.refused _ (by decide) fun accepted => absurd accepted.2.1 (by omega))
      · rw [if_neg negative]
        by_cases outside : toSigned buffer < pagLogInitData * pageSize ∨
            toSigned buffer ≥ heapStart
        · rw [if_pos outside]
          refine .ok (.refused _ (by decide) fun accepted => ?_)
          rcases outside with low | high
          · exact absurd accepted.2.2.1 (Int.not_le.mpr low)
          · exact absurd accepted.2.2.2 (Int.not_lt.mpr high)
        · rw [if_neg outside]
          have accepted : ReadAccepted 0 buffer count := by
            rw [not_or] at outside
            exact ⟨rfl, Int.not_lt.mp negative, Int.not_lt.mp outside.1,
              Int.not_le.mp outside.2⟩
          have requested := disciplined.requesting count
          have unfolded : kernel.sysReadKeyboard buffer count i =
              if kernel.isEmpty .keyboardqueue then
                readLoop buffer count i (kernel.requesting count)
              else
                ((kernel.requesting count).updateProcessStateRr kernel.core.current
                  (some .keyboardqueue) >>= fun parked =>
                    parked.schedNextRr [.sysReadQueued] >>= fun switched =>
                      .ok (switched, none)) := rfl
          show Ensures _ _ (kernel.sysReadKeyboard buffer count i)
          rw [unfolded]
          by_cases empty : kernel.isEmpty .keyboardqueue = true
          · rw [if_pos empty]
            exact (readLoop_outcome requested buffer count i).mono fun outcome loop =>
              .loops accepted (isEmpty_iff.mp empty) outcome loop
          · have parked := updateProcessStateRr_parks requested
              (rfl : stateIn (some .keyboardqueue) = _) [.sysReadQueued]
              fun switched => .ok (switched, (none : Option Int))
            rw [if_neg empty]
            refine Eq.mpr (congrArg _ parked) ?_
            exact .ok (.queued accepted fun none => empty (isEmpty_iff.mpr none))
  · have refused : checkFd fd false = -9 := by
      simp [checkFd, standard]
    rw [refused, if_pos (by decide)]
    exact .ok (.refused _ (by decide) fun accepted => standard accepted.1)

inductive ReadOutcome (kernel : SequenceKernel) : SequenceKernel × Option Int → Prop
  | finished (ram : Nat → Nat → UInt8) (circbuff : Circbuff) (readers : TaskId → Int)
      (result : Int) :
      ReadOutcome kernel (⟨kernel.core.withInput ram circbuff readers, kernel.queues⟩, some result)
  | waits (ram : Nat → Nat → UInt8) (circbuff : Circbuff) (readers : TaskId → Int)
      (buffer : Nat) (count i : Int) :
      ReadOutcome kernel (parkFront ⟨kernel.core.withInput ram circbuff readers, kernel.queues⟩
        .keyboardqueue [.sysReadLoop buffer count i], none)
  | queued (ram : Nat → Nat → UInt8) (circbuff : Circbuff) (readers : TaskId → Int) :
      ReadOutcome kernel (parkTail ⟨kernel.core.withInput ram circbuff readers, kernel.queues⟩
        .keyboardqueue [.sysReadQueued], none)

theorem Core.Takes.withInput {core after : Core} {pt : DirSlot} {address : Nat}
    {taken : List UInt8} (takes : core.Takes pt address taken after) :
    after = core.withInput after.mm.ram after.circbuff core.keyboardReadersCount := by
  have mm := storeBytes_eq_ok takes.stored
  rw [takes.rest]
  dsimp only
  rw [mm]
  rfl

theorem LoopOutcome.coarse {buffer : Nat} {count i : Int}
    {outcome : SequenceKernel × Option Int} (loop : LoopOutcome kernel buffer count i outcome) :
    ReadOutcome kernel outcome := by
  cases loop with
  | finished taken core takes complete =>
      rw [takes.withInput]
      exact .finished _ _ _ 0
  | waits taken core takes more drained =>
      rw [takes.withInput]
      exact .waits _ _ _ buffer count _

theorem ReadCall.coarse {fd : Int} {buffer : Nat} {count i : Int}
    {outcome : SequenceKernel × Option Int} (call : ReadCall kernel fd buffer count i outcome) :
    ReadOutcome kernel outcome := by
  cases call with
  | refused error positive invalid =>
      exact .finished kernel.core.mm.ram kernel.core.circbuff kernel.core.keyboardReadersCount error
  | loops accepted alone outcome loop =>
      have coarse := loop.coarse
      cases coarse with
      | finished ram circbuff readers result => exact .finished ram circbuff readers result
      | waits ram circbuff readers buffer count i =>
          exact .waits ram circbuff readers buffer count i
      | queued ram circbuff readers => exact .queued ram circbuff readers
  | queued accepted behind =>
      exact .queued kernel.core.mm.ram kernel.core.circbuff _

/-! ## Key presses -/

/-- A character has been pushed for the first waiting reader, which is woken when
it completes the request or fills the ring. -/
inductive KeyOutcome (kernel : SequenceKernel) (result : UInt8) : SequenceKernel → Prop
  | buffered (reader : TaskId) (rest : List TaskId)
      (waiting : kernel.queues.elements .keyboardqueue = reader :: rest)
      (incomplete : ¬((kernel.core.circbuff.push result).full = true ∨
        ((kernel.core.circbuff.push result).counter : Int) =
          kernel.core.keyboardReadersCount reader)) :
      KeyOutcome kernel result ⟨kernel.core.withInput kernel.core.mm.ram
        (kernel.core.circbuff.push result) kernel.core.keyboardReadersCount, kernel.queues⟩
  | wakes (reader : TaskId) (rest : List TaskId)
      (waiting : kernel.queues.elements .keyboardqueue = reader :: rest)
      (complete : (kernel.core.circbuff.push result).full = true ∨
        ((kernel.core.circbuff.push result).counter : Int) =
          kernel.core.keyboardReadersCount reader) :
      KeyOutcome kernel result (parkTail
        ⟨(kernel.core.withInput kernel.core.mm.ram (kernel.core.circbuff.push result)
            (Function.update kernel.core.keyboardReadersCount reader
              (kernel.core.keyboardReadersCount reader -
                (kernel.core.circbuff.push result).counter))).setState reader .ready,
          kernel.queues.toFront reader .readyqueue⟩ .readyqueue [.keyboardRoutine])

theorem reader_disciplined (disciplined : Disciplined kernel) {reader : TaskId}
    (waiting : reader ∈ kernel.queues.elements .keyboardqueue) (circbuff : Circbuff)
    (readers : TaskId → Int) :
    Disciplined
      ⟨(kernel.core.withInput kernel.core.mm.ram circbuff readers).setState reader .ready,
        kernel.queues.toFront reader .readyqueue⟩ := by
  have agrees : AgreesBut reader
      ((kernel.core.withInput kernel.core.mm.ram circbuff readers).setState reader .ready)
      kernel.core :=
    ⟨fun rest different => by simp [Core.withInput, different], fun _ => id, rfl,
      by simp [Core.withInput]⟩
  have enters : Orderly.MayEnter
      ((kernel.core.withInput kernel.core.mm.ram circbuff readers).setState reader .ready)
      reader .readyqueue :=
    ⟨by simp [stateWithin], by simp, fun sem same => by cases same⟩
  refine ⟨disciplined.toOrderly.toFront agrees enters, ?_⟩
  exact disciplined.placed.not_linked_toFront (child_ne_current disciplined waiting).symm
    disciplined.currentUnlinked

theorem deliverKey_outcome (disciplined : Disciplined kernel) (result : UInt8)
    (notEmpty : ¬kernel.isEmpty .keyboardqueue = true) :
    ∃ after, kernel.deliverKey result = .ok after ∧ KeyOutcome kernel result after := by
  cases waiting : kernel.queues.elements .keyboardqueue with
  | nil => exact absurd (isEmpty_iff.mpr waiting) notEmpty
  | cons reader rest =>
      have member : reader ∈ kernel.queues.elements .keyboardqueue := by simp [waiting]
      have found : Kernel.first (kernel.mapCore fun core =>
          { core with circbuff := core.circbuff.push result }) .keyboardqueue = .ok reader :=
        first_eq waiting
      unfold deliverKey
      dsimp only
      rw [found, ok_bind]
      split
      · rename_i complete
        let ring := kernel.core.circbuff.push result
        let readers := Function.update kernel.core.keyboardReadersCount reader
          (kernel.core.keyboardReadersCount reader - ring.counter)
        have ready := reader_disciplined disciplined member ring readers
        have counted := disciplined.withInput kernel.core.mm.ram ring readers
        refine ⟨_, ?_, .wakes reader rest waiting complete⟩
        exact (del_add_eq counted.toOrderly member (fun core => core.setState reader .ready)
            fun moved => do
              let parked ← moved.updateProcessStateRr moved.core.current (some .readyqueue)
              parked.schedNextRr [.keyboardRoutine]).trans
          (updateProcessStateRr_parks_last ready (rfl : stateIn (some .readyqueue) = _)
            [.keyboardRoutine])
      · rename_i incomplete
        exact ⟨_, rfl, .buffered reader rest waiting incomplete⟩

/-! ## Statistics -/

inductive StatsOutcome (kernel : SequenceKernel) (pid : Int) (st : Nat) :
    SequenceKernel × Int → Prop
  | refused (error : Int) (positive : 0 < error) : StatsOutcome kernel pid st (kernel, error)
  | stored (t : TaskId) (found : (kernel.core.task t).pid = pid) (notNegative : 0 ≤ pid)
      (accepted : accessOk false st 28 = true) (mm : Mm)
      (stored : kernel.core.mm.storeBytes kernel.currentTask.dirPagesBaseAddr st
        ((kernel.core.setRemaining t).task t).pStats.bytes = .ok mm) :
      StatsOutcome kernel pid st (⟨(kernel.core.setRemaining t).setMm mm, kernel.queues⟩, 0)

theorem sysGetStats_outcome (kernel : SequenceKernel) (pid : Int) (st : Nat) :
    Ensures Fault.Elsewhere (StatsOutcome kernel pid st) (kernel.sysGetStats pid st) := by
  unfold sysGetStats
  split
  · exact .ok (.refused _ (by decide))
  · rename_i accepted
    rw [not_or] at accepted
    split
    · exact .ok (.refused _ (by decide))
    · rename_i notNegative
      split
      · exact .ok (.refused _ (by decide))
      · rename_i t found
        have pids : (kernel.core.task t).pid = pid := by
          simpa using List.find?_some found
        have same : Kernel.currentTask (kernel.mapCore fun core => core.setRemaining t) =
            ((kernel.core.setRemaining t).task kernel.core.current) := rfl
        have directory : ((kernel.core.setRemaining t).task kernel.core.current).dirPagesBaseAddr =
            kernel.currentTask.dirPagesBaseAddr := by
          rw [Core.setRemaining_task]
          rfl
        dsimp only
        rw [same, directory]
        have fails := Mm.storeBytes_failsOnly kernel.currentTask.dirPagesBaseAddr st
          ((kernel.core.setRemaining t).task t).pStats.bytes kernel.core.mm
        have stores := StatsOutcome.stored t pids (Int.not_lt.mp notNegative)
          (Bool.eq_true_of_not_eq_false accepted.2)
        show Ensures _ _ (kernel.core.mm.storeBytes kernel.currentTask.dirPagesBaseAddr st
          ((kernel.core.setRemaining t).task t).pStats.bytes >>= fun mm =>
            .ok ((⟨(kernel.core.setRemaining t).setMm mm, kernel.queues⟩ : SequenceKernel),
              (0 : Int)))
        generalize kernel.core.mm.storeBytes kernel.currentTask.dirPagesBaseAddr st
          ((kernel.core.setRemaining t).task t).pStats.bytes = result at fails stores ⊢
        cases result with
        | error failure => exact .error (.inl (fails.of_error rfl))
        | ok mm => exact .ok (stores mm rfl)

theorem writeLoop_failsElsewhere (mm : Mm) (pt : DirSlot) (buffer : Nat) (size i : Int) :
    FailsOnly Fault.Elsewhere (writeLoop mm pt buffer size i) := by
  generalize measure : (size - i).toNat = rounds
  induction rounds using Nat.strongRecOn generalizing i with
  | ind rounds induction =>
      rw [writeLoop]
      split
      · have loads := (Mm.loadBytes_failsOnly pt mm
          (if size - i < sizeBlock then size - i else sizeBlock).toNat
          (toUnsigned (buffer + i))).allow fun _ failed => show Fault.Elsewhere _ from .inl failed
        refine FailsOnly.bind loads fun chunk => ?_
        split
        · have later := induction (size - (i + sizeBlock)).toNat
            (by unfold sizeBlock; omega) (i + sizeBlock) rfl
          exact later.bind fun _ => .ok trivial
        · exact .error (.inr rfl)
      · exact .ok trivial

theorem sysWrite_failsElsewhere (kernel : SequenceKernel) (fd : Int) (buffer : Nat)
    (size : Int) : FailsOnly Fault.Elsewhere (kernel.sysWrite fd buffer size) := by
  unfold sysWrite
  split
  · exact .ok trivial
  · split
    · exact .ok trivial
    · split
      · exact .ok trivial
      · exact (writeLoop_failsElsewhere _ _ _ _ _).bind fun _ => .ok trivial

/-! ## The clock -/

structure SameButStats (core other : Core) : Prop where
  mm : core.mm = other.mm
  idleTask : core.idleTask = other.idleTask
  current : core.current = other.current
  inKernel : core.inKernel = other.inKernel
  semArray : core.semArray = other.semArray
  globalPID : core.globalPID = other.globalPID
  leftTicks : core.leftTicks = other.leftTicks
  circbuff : core.circbuff = other.circbuff
  keyboardReadersCount : core.keyboardReadersCount = other.keyboardReadersCount
  task : ∀ t, core.task t = { other.task t with pStats := (core.task t).pStats }

theorem SameButStats.refl (core : Core) : SameButStats core core :=
  ⟨rfl, rfl, rfl, rfl, rfl, rfl, rfl, rfl, rfl, fun _ => rfl⟩

theorem SameButStats.trans {first second third : Core} (one : SameButStats first second)
    (two : SameButStats second third) : SameButStats first third where
  mm := one.mm.trans two.mm
  idleTask := one.idleTask.trans two.idleTask
  current := one.current.trans two.current
  inKernel := one.inKernel.trans two.inKernel
  semArray := one.semArray.trans two.semArray
  globalPID := one.globalPID.trans two.globalPID
  leftTicks := one.leftTicks.trans two.leftTicks
  circbuff := one.circbuff.trans two.circbuff
  keyboardReadersCount := one.keyboardReadersCount.trans two.keyboardReadersCount
  task t := by rw [one.task t, two.task t]

theorem SameButStats.charge (core : Core) (credit : Stats → Nat → Stats) :
    SameButStats (core.charge credit) core :=
  ⟨rfl, rfl, rfl, rfl, rfl, rfl, rfl, rfl, rfl, fun t => by simp⟩

theorem SameButStats.countTransition (core : Core) : SameButStats core.countTransition core :=
  ⟨rfl, rfl, rfl, rfl, rfl, rfl, rfl, rfl, rfl, fun t => by simp⟩

theorem SameButStats.setRemaining (core : Core) (t : TaskId) :
    SameButStats (core.setRemaining t) core :=
  ⟨rfl, rfl, rfl, rfl, rfl, rfl, rfl, rfl, rfl, core.setRemaining_task t⟩

theorem Disciplined.sameButStats (disciplined : Disciplined kernel) {core : Core}
    (same : SameButStats core kernel.core) : Disciplined ⟨core, kernel.queues⟩ := by
  refine disciplined.congr 0 ⟨fun t _ => ?_, ?_, same.idleTask, ?_⟩ ?_ same.current
  · rw [same.task]
  · rw [same.semArray]
    exact fun _ => id
  · rw [same.task, same.idleTask]
  · rw [same.task]

inductive ClockOutcome (kernel : SequenceKernel) : SequenceKernel → Prop
  | continues (left : kernel.core.leftTicks ≠ 0) : ClockOutcome kernel kernel
  | idles (expired : kernel.core.leftTicks = 0)
      (idle : kernel.core.current = kernel.core.idleTask) :
      ClockOutcome kernel (dispatch kernel [.clkRoutine])
  | preempts (expired : kernel.core.leftTicks = 0)
      (notIdle : kernel.core.current ≠ kernel.core.idleTask) :
      ClockOutcome kernel (parkTail kernel .readyqueue [.clkRoutine])

theorem needsSchedRr_outcome (core : Core) :
    SameButStats core.needsSchedRr.1 core ∧
      (core.needsSchedRr.2 = true ↔ core.needsSchedRr.1.leftTicks = 0) := by
  unfold Core.needsSchedRr
  split
  · rename_i expired
    exact ⟨.countTransition core, by simpa [Core.modifyStats, Core.modifyTask] using expired⟩
  · rename_i left
    exact ⟨.refl core, by simpa using left⟩

theorem schedule_outcome
    (disciplined : Disciplined ⟨kernel.core.updateSchedDataRr, kernel.queues⟩) :
    ∃ core after, SameButStats core kernel.core.updateSchedDataRr ∧
      kernel.schedule [.clkRoutine] = .ok after ∧ ClockOutcome ⟨core, kernel.queues⟩ after := by
  rcases needsSchedRr_outcome kernel.core.updateSchedDataRr with ⟨same, decided⟩
  unfold schedule
  generalize kernel.core.updateSchedDataRr.needsSchedRr = outcome at same decided ⊢
  rcases outcome with ⟨core, quantumOver⟩
  have counted : Disciplined ⟨core, kernel.queues⟩ := disciplined.sameButStats same
  dsimp only at decided ⊢
  cases quantumOver with
  | false =>
      exact ⟨core, _, same, rfl, .continues fun expired => by simpa using decided.mpr expired⟩
  | true =>
      have expired : core.leftTicks = 0 := decided.mp rfl
      rw [if_pos rfl]
      by_cases notIdle : core.current ≠ core.idleTask
      · rw [if_pos notIdle]
        exact ⟨core, _, same, updateProcessStateRr_parks_last counted
          (rfl : stateIn (some .readyqueue) = _) [.clkRoutine], .preempts expired notIdle⟩
      · rw [if_neg notIdle]
        exact ⟨core, _, same, schedNextRr_eq counted.placed [.clkRoutine],
          .idles expired (not_not.mp notIdle)⟩

/-! ## Resuming -/

def topFrame : List Frame → Option Frame
  | .schedNextRr :: frames => topFrame frames
  | frame :: _ => some frame
  | [] => none

inductive ResumeOutcome (kernel : SequenceKernel) : SequenceKernel → Prop
  | idles (top : ∀ frame, topFrame kernel.currentTask.kernelEsp = some frame → frame = .cpuIdle) :
      ResumeOutcome kernel kernel
  | interrupt (frame : Frame) (top : topFrame kernel.currentTask.kernelEsp = some frame)
      (kind : frame = .keyboardRoutine ∨ frame = .clkRoutine) :
      ResumeOutcome kernel (kernel.mapCore Core.leaveKernel)
  | returns (frame : Frame) (top : topFrame kernel.currentTask.kernelEsp = some frame)
      (kind : frame = .retFromFork ∨ frame = .sysReadQueued ∨ frame = .sysExit) :
      ResumeOutcome kernel (finishCall (kernel, some 0))
  | waited (top : topFrame kernel.currentTask.kernelEsp = some .sysSemWait) :
      ResumeOutcome kernel (finishCall
        (⟨kernel.core.setSemdestroyed kernel.core.current false, kernel.queues⟩,
          some (if kernel.currentTask.semdestroyed then -einval else 0)))
  | reads (buffer : Nat) (count i : Int)
      (top : topFrame kernel.currentTask.kernelEsp = some (.sysReadLoop buffer count i))
      (outcome : SequenceKernel × Option Int)
      (loop : LoopOutcome kernel buffer count i outcome) :
      ResumeOutcome kernel (finishCall outcome)

theorem resumeFrames_outcome (disciplined : Disciplined kernel) (frames : List Frame)
    (stack : topFrame kernel.currentTask.kernelEsp = topFrame frames) :
    Ensures Fault.Elsewhere (fun after => ∃ core, SameButStats core kernel.core ∧
      ResumeOutcome ⟨core, kernel.queues⟩ after) (resumeFrames frames kernel) := by
  induction frames generalizing kernel with
  | nil => exact .ok ⟨kernel.core, .refl _, .idles (by simp [stack, topFrame])⟩
  | cons frame frames induction =>
      have here := SameButStats.refl kernel.core
      cases frame with
      | schedNextRr =>
          have same : SameButStats kernel.core.countTransition.chargeReady kernel.core :=
            (SameButStats.charge _ _).trans (.countTransition _)
          have stack' : topFrame (Kernel.currentTask
              ⟨kernel.core.countTransition.chargeReady, kernel.queues⟩).kernelEsp =
              topFrame frames := by
            rw [currentTask, same.task, same.current]
            exact stack
          refine (induction (disciplined.sameButStats same) stack').mono fun after resumed => ?_
          rcases resumed with ⟨core, sameCore, outcome⟩
          exact ⟨core, sameCore.trans same, outcome⟩
      | cpuIdle => exact .ok ⟨_, here, .idles (by simp [stack, topFrame])⟩
      | retFromFork => exact .ok ⟨_, here, .returns _ stack (.inl rfl)⟩
      | sysSemWait =>
          simp only [resumeFrames, sysSemWaitTail_eq]
          exact .ok ⟨_, here, .waited stack⟩
      | sysReadQueued => exact .ok ⟨_, here, .returns _ stack (.inr (.inl rfl))⟩
      | sysReadLoop buffer count i =>
          exact (readLoop_outcome disciplined buffer count i).bind fun outcome read =>
            .ok ⟨_, here, .reads buffer count i stack outcome read⟩
      | sysExit => exact .ok ⟨_, here, .returns _ stack (.inr (.inr rfl))⟩
      | keyboardRoutine => exact .ok ⟨_, here, .interrupt _ stack (.inl rfl)⟩
      | clkRoutine => exact .ok ⟨_, here, .interrupt _ stack (.inr rfl)⟩

end Zeos
