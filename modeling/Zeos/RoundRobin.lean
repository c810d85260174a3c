import Zeos.Scheduling

/-! # Round robin

The ticks that are left, the idle task, and how long a ready task waits, over
whole runs.
-/

namespace Zeos

open Foundation Kernel

/-! ## Quanta -/

def Processes.Timed (view : Processes) : Prop := ∀ t, t ∉ view.freequeue → view.quantum t = 50

theorem Processes.Timed.add {view after : Processes} (timed : view.Timed) {maker child : TaskId}
    {rest : List TaskId} (taken : maker ∉ view.freequeue) (free : view.freequeue = child :: rest)
    (freequeue : after.freequeue = rest)
    (quanta : after.quantum = Function.update view.quantum child (view.quantum maker)) :
    after.Timed := by
  intro t absent
  rw [freequeue] at absent
  rw [quanta]
  by_cases isChild : t = child
  · rw [isChild, Function.update_self]
    exact timed maker taken
  · rw [Function.update_of_ne isChild]
    exact timed t (by simp [free, isChild, absent])

theorem ProcessStep.timed {view after : Processes} {caller : TaskId} {event : Event}
    (sound : view.Sound caller) (step : ProcessStep view caller event after)
    (timed : view.Timed) : after.Timed := by
  have callerTaken := sound.liveNotFree sound.callerLive
  cases step with
  | keeps event after keeps full =>
      intro t absent
      rw [keeps.quantum]
      exact timed t (by rwa [← keeps.freequeue])
  | noMemory child rest free mm outOfFrames => exact timed.add callerTaken free rfl rfl
  | forked child rest free mm copied => exact timed.add callerTaken free rfl rfl
  | cloned function stack child rest free => exact timed.add callerTaken free rfl rfl
  | exited mm freed =>
      intro t absent
      have both : t ∉ view.freequeue ∧ t ≠ caller := by
        simpa [Processes.removeExited] using absent
      exact timed t both.1
  | moved amount mm result outcome => exact timed

theorem bootCore_quantum (machine : Machine) (t : TaskId) :
    ((machine.bootCore 0 1).task t).quantum = if t = 0 ∨ t = 1 then 50 else 0 := by
  fin_cases t <;> rfl

theorem boot_timed (machine : Machine) :
    (Kernel.processes ⟨machine.bootCore 0 1, bootSequences⟩).Timed := by
  intro t absent
  change ((machine.bootCore 0 1).task t).quantum = 50
  rw [bootCore_quantum, if_pos (boot_allocated absent)]

structure Ticking (kernel : SequenceKernel) : Prop where
  disciplined : Disciplined kernel
  timed : kernel.processes.Timed
  positive : 1 ≤ kernel.core.leftTicks
  bounded : kernel.core.leftTicks ≤ 50

/-- The idle task is about to use up its quantum, and nobody is ready. -/
structure LastIdleTick (kernel : SequenceKernel) : Prop where
  idle : kernel.core.current = kernel.core.idleTask
  last : kernel.core.leftTicks = 1
  alone : kernel.queues.elements .readyqueue = []

theorem Entry.leftTicks_eq {core before : Core} {event : Event} (entry : Entry event before core)
    (positive : 1 ≤ before.leftTicks) (bounded : before.leftTicks ≤ 50) :
    core.leftTicks = if event = .clock then before.leftTicks - 1 else before.leftTicks := by
  rw [entry.leftTicks, Core.entered]
  by_cases isClock : event = .clock
  · rw [if_pos isClock, if_pos isClock]
    show toUnsigned ((before.leftTicks : Int) - 1) = _
    unfold toUnsigned
    omega
  · rw [if_neg isClock, if_neg isClock]

section Steps

variable {machine : Machine} {before after : SequenceKernel} {event : Event}

theorem step_scheduled (disciplined : Disciplined before)
    (step : (checkedZeos machine).step before event after) :
    ∃ core, Entry event before.core core ∧ SchedStep ⟨core, before.queues⟩ event after := by
  rcases step_effect disciplined step with ⟨core, entry, entered, -, effect⟩
  exact ⟨core, entry, effect.scheduled entered entry.inKernel⟩

theorem Ticking.quantum (ticking : Ticking before) :
    (before.core.task before.core.current).quantum = 50 :=
  ticking.timed _ (ticking.disciplined.live_not_free (.inr (.inl rfl)))

theorem LastIdleTick.expired (disciplined : Disciplined before) (lastTick : LastIdleTick before)
    (step : (checkedZeos machine).step before .clock after) : after.core.leftTicks = 0 := by
  rcases step_scheduled disciplined step with ⟨core, entry, scheduled⟩
  have one := lastTick.last
  have left : core.leftTicks = 0 := by
    rw [entry.leftTicks_eq (by omega) (by omega), if_pos rfl, one]
  have idle : core.current = core.idleTask := by
    rw [entry.current, entry.idleTask, lastTick.idle]
  cases scheduled with
  | stays _ _ joined idleTask mode current leftTicks ready notIdle tick keys =>
      exact absurd left (tick rfl)
  | switches _ _ joined idleTask mode switched notIdle tick notKey =>
      have nobody : joined = [] := (tick rfl).2.trans (if_pos idle)
      have empty : Kernel.ready ⟨core, before.queues⟩ ++ joined = [] := by
        rw [nobody, List.append_nil]
        exact lastTick.alone
      rw [empty] at switched
      cases switched with
      | toNext next rest contents => cases contents
      | toIdle _ current ready leftTicks stack => rw [leftTicks, left]

theorem Ticking.step (ticking : Ticking before)
    (step : (checkedZeos machine).step before event after)
    (notLast : event = .clock → ¬LastIdleTick before) : Ticking after := by
  have disciplined := execute_disciplined ticking.disciplined step.1 step.2
  have timed := (step_processes ticking.disciplined step).timed ticking.disciplined.sound
    ticking.timed
  have positive := ticking.positive
  have bounded := ticking.bounded
  rcases step_scheduled ticking.disciplined step with ⟨core, entry, scheduled⟩
  have left := entry.leftTicks_eq positive bounded
  have inRange : 1 ≤ after.core.leftTicks ∧ after.core.leftTicks ≤ 50 := by
    cases scheduled with
    | stays _ _ joined idleTask mode current leftTicks ready notIdle tick keys =>
        rw [leftTicks]
        by_cases isClock : event = .clock
        · have some : core.leftTicks ≠ 0 := tick isClock
          rw [if_pos isClock] at left
          dsimp only
          omega
        · rw [if_neg isClock] at left
          dsimp only
          omega
    | switches _ _ joined idleTask mode switched notIdle tick notKey =>
        cases switched with
        | toNext next rest contents current ready leftTicks stack =>
            have quantum : (after.core.task next).quantum = 50 :=
              timed next (disciplined.live_not_free (.inr (.inl current.symm)))
            omega
        | toIdle empty current ready leftTicks stack =>
            by_cases isClock : event = .clock
            · rcases List.append_eq_nil_iff.mp empty with ⟨alone, nobody⟩
              rcases tick isClock with ⟨expired, who⟩
              rw [nobody] at who
              have idle : core.current = core.idleTask := by
                by_contra notIdle
                rw [if_neg notIdle] at who
                cases who
              rw [entry.current, entry.idleTask] at idle
              rw [if_pos isClock] at left
              have expired : core.leftTicks = 0 := expired
              exact absurd ⟨idle, by omega, alone⟩ (notLast isClock)
            · rw [if_neg isClock] at left
              rw [leftTicks]
              dsimp only
              omega
    | wakes llegit reader _ idleTask mode switched woken keyboardqueue =>
        cases switched with
        | toNext next rest contents current ready leftTicks stack =>
            have quantum : (after.core.task next).quantum = 50 :=
              timed next (disciplined.live_not_free (.inr (.inl current.symm)))
            omega
        | toIdle empty => simp at empty
  exact ⟨disciplined, timed, inRange.1, inRange.2⟩

end Steps

/-- There is a tick left at every tick, and after every tick, and whenever a task
has been resumed, no more than the quantum of the current task. -/
structure TicksKept (transition : Recorded) : Prop where
  before : transition.label = .clock → 1 ≤ transition.before.core.leftTicks
  after : transition.label = .clock ∨ transition.label = .resume →
    1 ≤ transition.after.core.leftTicks ∧ transition.after.core.leftTicks ≤
      (transition.after.core.task transition.after.core.current).quantum

theorem boot_ticking (machine : Machine) : Ticking ⟨machine.bootCore 0 1, bootSequences⟩ where
  disciplined := boot_disciplined machine
  timed := boot_timed machine
  positive := by
    show 1 ≤ 50
    decide
  bounded := le_refl 50

/-- The quantum counter stays in its range exactly in the runs in which the idle
task never uses up a quantum while nobody is ready. -/
theorem quantumCounter {machine : Machine} {history : List (Transition PointerKernel Event)}
    {last : PointerKernel} (reaches : (zeos machine).Reaches history last) :
    (∀ transition ∈ record history, transition.label = .clock →
        ¬LastIdleTick transition.before) ↔
      ∀ transition ∈ record history, TicksKept transition := by
  rcases (run_toSequences reaches).2 with ⟨first, start, run⟩
  rw [init_eq start] at run
  constructor
  · intro notLast transition member
    have ticking := run.along (boot_ticking machine) fun transition member step ticking =>
      ticking.step step (notLast transition member)
    rcases ticking transition member with ⟨before, after⟩
    refine ⟨fun _ => before.positive, fun _ => ⟨after.positive, ?_⟩⟩
    rw [after.quantum]
    exact after.bounded
  · intro kept transition member isClock lastTick
    have disciplined := run.along (boot_disciplined machine) fun transition _ step disciplined =>
      execute_disciplined disciplined step.1 step.2
    have step := run.step_of_mem member
    rw [isClock] at step
    have expired := lastTick.expired (disciplined transition member).1 step
    have positive := ((kept transition member).after (.inl isClock)).1
    omega

def oneQuantum : List Event := List.replicate 50 .clock ++ [.resume, .clock]

theorem quantumCounter_busy :
    ∃ history last, (zeos Machine.sample).Reaches history last ∧ history.length = 52 ∧
      ∀ transition ∈ record history, TicksKept transition := by
  have computed : (replay oneQuantum ⟨Machine.sample.bootCore 0 1, bootLinks⟩).any (fun run =>
      decide (run.1.length = 52) && (record run.1).all fun transition =>
        transition.before.core.current ≠ transition.before.core.idleTask) = true := by
    decide +kernel
  rcases reaches_of_replay computed with ⟨history, last, reaches, found⟩
  rw [Bool.and_eq_true, decide_eq_true_eq, List.all_eq_true] at found
  rcases found with ⟨length, busy⟩
  refine ⟨history, last, reaches, length, (quantumCounter reaches).mp ?_⟩
  intro transition member _ lastTick
  exact of_decide_eq_true (busy transition member) lastTick.idle

/-- The first task waits for a semaphore, and the idle task runs through more than
a whole quantum. -/
def longIdle : List Event :=
  [.semInit 0 0, .semWait 0, .resume] ++ List.replicate 50 .clock ++ [.resume, .clock]

theorem quantumCounter_wraps :
    ∃ history last, (zeos Machine.sample).Reaches history last ∧
      ∃ transition ∈ record history, ¬TicksKept transition ∧ transition.label = .clock ∧
        transition.before.core.leftTicks = 0 ∧
        transition.after.core.leftTicks = 4294967295 := by
  have computed : (replay longIdle ⟨Machine.sample.bootCore 0 1, bootLinks⟩).any (fun run =>
      (record run.1).any fun transition => decide (transition.label = .clock ∧
        transition.before.core.leftTicks = 0 ∧
        transition.after.core.leftTicks = 4294967295)) = true := by
    decide +kernel
  rcases reaches_of_replay computed with ⟨history, last, reaches, found⟩
  rcases List.any_eq_true.mp found with ⟨transition, member, wraps⟩
  have wraps := of_decide_eq_true wraps
  refine ⟨history, last, reaches, transition, member, fun kept => ?_, wraps⟩
  have positive := kept.before wraps.1
  omega

/-! ## The idle task -/

/-- The idle task is in no queue, and it gets the processor only from a
`sched_next_rr` that finds the readyqueue empty: nobody is ready before and after,
and the task that is left does not return to the other path. -/
structure OnlyFallback (transition : Recorded) : Prop where
  unlinked : ¬transition.after.queues.Linked transition.after.core.idleTask
  fallback : transition.after.core.inKernel = true →
    transition.after.core.current = transition.after.core.idleTask →
    transition.before.ready = [] ∧ transition.after.ready = [] ∧
      ∀ frames, (transition.after.core.task transition.before.core.current).kernelEsp ≠
        .schedNextRr :: frames

/-- The transition is a key press that wakes a reader while the idle task is on
the processor. -/
def WakesFromIdle (transition : Recorded) : Prop :=
  transition.before.core.current = transition.before.core.idleTask ∧
    ∃ llegit reader, transition.label = .keyboard llegit ∧
      WakesReader transition.before llegit reader

theorem WakesReader.congr {kernel other : SequenceKernel} {llegit : UInt8} {reader : TaskId}
    (woken : WakesReader kernel llegit reader) (queues : other.queues = kernel.queues)
    (circbuff : other.core.circbuff = kernel.core.circbuff)
    (readers : other.core.keyboardReadersCount = kernel.core.keyboardReadersCount) :
    WakesReader other llegit reader where
  accepted := by
    rcases woken.accepted with ⟨notFull, low, waiting⟩
    exact ⟨by rwa [circbuff], low, by rwa [queues]⟩
  first := by
    rw [queues]
    exact woken.first
  complete := by
    rw [circbuff, readers]
    exact woken.complete

theorem SwitchedFrom.idle_fallback {core : Core} {queue : List TaskId} {after : SequenceKernel}
    (switched : SwitchedFrom core queue after) (absent : core.idleTask ∉ queue)
    (same : after.core.idleTask = core.idleTask) :
    after.core.idleTask ∉ after.ready ∧ (after.core.current = after.core.idleTask →
      queue = [] ∧ after.ready = [] ∧ ∀ frames,
        (after.core.task core.current).kernelEsp ≠ .schedNextRr :: frames) := by
  rw [same]
  cases switched with
  | toNext next rest contents current ready leftTicks stack =>
      rw [contents, List.mem_cons, not_or] at absent
      refine ⟨by rw [ready]; exact absent.2, fun idle => ?_⟩
      exact absurd (current.symm.trans idle).symm absent.1
  | toIdle empty current ready leftTicks stack =>
      exact ⟨by rw [ready]; exact List.not_mem_nil, fun _ => ⟨empty, ready, stack⟩⟩

theorem Disciplined.idle_unlinked {kernel : SequenceKernel} (disciplined : Disciplined kernel)
    (absent : kernel.core.idleTask ∉ kernel.ready) :
    ¬kernel.queues.Linked kernel.core.idleTask := by
  intro linked
  rcases linked with ⟨queue, member⟩
  have isReady := disciplined.idle_linked member
  subst isReady
  exact absent member

section Steps

variable {machine : Machine} {before after : SequenceKernel} {event : Event}

/-- Only a key press that wakes a reader from the idle task makes the idle task
ready. -/
theorem onlyFallback_step (disciplined : Disciplined before)
    (step : (checkedZeos machine).step before event after)
    (absent : before.core.idleTask ∉ before.ready) :
    OnlyFallback ⟨before, event, after⟩ ↔ ¬WakesFromIdle ⟨before, event, after⟩ := by
  have later := execute_disciplined disciplined step.1 step.2
  rcases step_scheduled disciplined step with ⟨core, entry, scheduled⟩
  have absent : core.idleTask ∉ Kernel.ready ⟨core, before.queues⟩ := by
    rw [entry.idleTask]
    exact absent
  cases scheduled with
  | stays _ _ joined idleTask mode current leftTicks ready notIdle tick keys =>
      have stillAbsent : after.core.idleTask ∉ after.ready := by
        rw [ready, idleTask, List.mem_append, not_or]
        exact ⟨absent, notIdle⟩
      refine iff_of_true ⟨later.idle_unlinked stillAbsent, fun switched => ?_⟩ ?_
      · exact absurd (mode.symm.trans switched) Bool.false_ne_true
      · rintro ⟨-, llegit, reader, isKey, woken⟩
        exact (keys llegit isKey).1 reader (woken.congr rfl entry.circbuff
          entry.keyboardReadersCount)
  | switches _ _ joined idleTask mode switched notIdle tick notKey =>
      have notInLine : core.idleTask ∉ Kernel.ready ⟨core, before.queues⟩ ++ joined := by
        rw [List.mem_append, not_or]
        exact ⟨absent, notIdle⟩
      rcases switched.idle_fallback notInLine idleTask with ⟨stillAbsent, fallback⟩
      refine iff_of_true ⟨later.idle_unlinked stillAbsent, fun _ idle => ?_⟩ ?_
      · rcases fallback idle with ⟨empty, ready, stack⟩
        dsimp only at stack
        rw [entry.current] at stack
        exact ⟨(List.append_eq_nil_iff.mp empty).1, ready, stack⟩
      · rintro ⟨-, llegit, reader, isKey, -⟩
        exact notKey llegit isKey
  | wakes llegit reader _ idleTask mode switched woken keyboardqueue =>
      have fromIdle : WakesFromIdle ⟨before, .keyboard llegit, after⟩ ↔
          core.current = core.idleTask := by
        rw [entry.current, entry.idleTask]
        refine ⟨fun wakes => wakes.1, fun idle => ⟨idle, llegit, reader, rfl, ?_⟩⟩
        exact woken.congr rfl entry.circbuff.symm entry.keyboardReadersCount.symm
      cases switched with
      | toIdle empty => simp at empty
      | toNext next rest contents current ready leftTicks stack =>
          rw [List.cons_append, List.cons.injEq] at contents
          rcases contents with ⟨isReader, remaining⟩
          have notIdle : reader ≠ core.idleTask := by
            intro same
            have member : reader ∈ before.queues.elements .keyboardqueue :=
              List.mem_of_head? woken.first
            rw [same, entry.idleTask] at member
            cases disciplined.idle_linked member
          rw [fromIdle]
          constructor
          · intro fallback idle
            apply fallback.unlinked
            refine ⟨.readyqueue, ?_⟩
            show after.core.idleTask ∈ after.ready
            rw [ready, ← remaining, idleTask]
            simp [idle]
          · intro busy
            refine ⟨later.idle_unlinked ?_, fun _ idle => ?_⟩
            · rw [ready, ← remaining, idleTask, List.mem_append, not_or]
              exact ⟨absent, by simpa using fun same => busy (Eq.symm same)⟩
            · rw [isReader, ← current, idle, idleTask] at notIdle
              exact absurd rfl notIdle

end Steps

/-- The idle task stays a fallback exactly in the runs in which no key press wakes
a reader while it is on the processor. -/
theorem idleOnlyFallback {machine : Machine} {history : List (Transition PointerKernel Event)}
    {last : PointerKernel} (reaches : (zeos machine).Reaches history last) :
    (∀ transition ∈ record history, ¬WakesFromIdle transition) ↔
      ∀ transition ∈ record history, OnlyFallback transition := by
  rcases (run_toSequences reaches).2 with ⟨first, start, run⟩
  rw [init_eq start] at run
  let Absent (kernel : SequenceKernel) : Prop :=
    Disciplined kernel ∧ kernel.core.idleTask ∉ kernel.ready
  have initially : Absent ⟨machine.bootCore 0 1, bootSequences⟩ :=
    ⟨boot_disciplined machine, List.not_mem_nil⟩
  constructor
  · intro notWoken transition member
    have absent := run.along initially fun transition member step absent =>
      ⟨execute_disciplined absent.1 step.1 step.2, fun ready =>
        ((onlyFallback_step absent.1 step absent.2).mpr (notWoken transition member)).unlinked
          ⟨_, ready⟩⟩
    rcases absent transition member with ⟨⟨disciplined, absent⟩, -⟩
    exact (onlyFallback_step disciplined (run.step_of_mem member) absent).mpr
      (notWoken transition member)
  · intro fallback transition member
    have absent := run.along initially fun transition member step absent =>
      ⟨execute_disciplined absent.1 step.1 step.2, fun ready =>
        (fallback transition member).unlinked ⟨_, ready⟩⟩
    rcases absent transition member with ⟨⟨disciplined, absent⟩, -⟩
    exact (onlyFallback_step disciplined (run.step_of_mem member) absent).mp
      (fallback transition member)

def wokenFromClone : List Event :=
  [.clone 1048576 1081344, .read 0 1081344 1 0, .resume, .keyboard 30]

theorem idleOnlyFallback_clone :
    ∃ history last, (zeos Machine.sample).Reaches history last ∧ history.length = 4 ∧
      ∀ transition ∈ record history, OnlyFallback transition := by
  have computed : (replay wokenFromClone ⟨Machine.sample.bootCore 0 1, bootLinks⟩).any (fun run =>
      decide (run.1.length = 4) && (record run.1).all fun transition =>
        transition.before.core.current ≠ transition.before.core.idleTask) = true := by
    decide +kernel
  rcases reaches_of_replay computed with ⟨history, last, reaches, found⟩
  rw [Bool.and_eq_true, decide_eq_true_eq, List.all_eq_true] at found
  rcases found with ⟨length, busy⟩
  refine ⟨history, last, reaches, length, (idleOnlyFallback reaches).mp ?_⟩
  intro transition member fromIdle
  exact of_decide_eq_true (busy transition member) fromIdle.1

def wokenFromIdle : List Event := [.read 0 1081344 1 0, .resume, .keyboard 30]

theorem idleOnlyFallback_queued :
    ∃ history last, (zeos Machine.sample).Reaches history last ∧
      ∃ transition ∈ record history, ¬OnlyFallback transition ∧
        transition.after.core.idleTask ∈ transition.after.ready := by
  have computed : (replay wokenFromIdle ⟨Machine.sample.bootCore 0 1, bootLinks⟩).any (fun run =>
      (record run.1).any fun transition => decide (transition.after.core.idleTask ∈
        transition.after.queues.elements .readyqueue)) = true := by
    decide +kernel
  rcases reaches_of_replay computed with ⟨history, last, reaches, found⟩
  rcases List.any_eq_true.mp found with ⟨transition, member, queued⟩
  have queued := of_decide_eq_true queued
  exact ⟨history, last, reaches, transition, member, fun fallback => fallback.unlinked ⟨_, queued⟩,
    queued⟩

/-! ## Bounded waiting -/

def dispatched (transition : Recorded) : Option TaskId :=
  if transition.after.core.inKernel = true then some transition.after.core.current else none

/-- The reader that `keyboard_routine` made ready. -/
def wokenByKey (transition : Recorded) : Option TaskId :=
  match transition.label with
  | .keyboard _ => (transition.before.queues.elements .keyboardqueue).find? fun t =>
      t ∉ transition.after.queues.elements .keyboardqueue
  | _ => none

theorem wokenByKey_of_notKey {transition : Recorded}
    (notKey : ∀ llegit, transition.label ≠ .keyboard llegit) : wokenByKey transition = none := by
  unfold wokenByKey
  split
  · rename_i llegit isKey
    exact absurd isKey (notKey llegit)
  · rfl

theorem wokenByKey_of_same {transition : Recorded}
    (same : ∀ llegit, transition.label = .keyboard llegit →
      transition.after.queues.elements .keyboardqueue =
        transition.before.queues.elements .keyboardqueue) : wokenByKey transition = none := by
  unfold wokenByKey
  split
  · rename_i llegit isKey
    rw [List.find?_eq_none]
    intro t member
    simpa [same llegit isKey] using member
  · rfl

section Steps

variable {machine : Machine} {before after : SequenceKernel} {event : Event}

/-- The readyqueue moves on as a waiting line. The idle task may take the
processor, but not while somebody waits. -/
theorem step_moves (disciplined : Disciplined before)
    (step : (checkedZeos machine).step before event after)
    (waiting : before.ready ≠ [] ∨ after.ready ≠ []) :
    WaitingLine.Moves Kernel.ready wokenByKey dispatched ⟨before, event, after⟩ := by
  rcases step_scheduled disciplined step with ⟨core, entry, scheduled⟩
  cases scheduled with
  | stays _ _ joined idleTask mode current leftTicks ready notIdle tick keys =>
      have notWoken : wokenByKey ⟨before, event, after⟩ = none :=
        wokenByKey_of_same fun llegit isKey => (keys llegit isKey).2
      have notSwitched : dispatched ⟨before, event, after⟩ = none := by
        rw [dispatched, if_neg (by simp [mode])]
      refine ⟨joined, ?_⟩
      rw [notWoken, notSwitched]
      exact ⟨Eq.symm ready, absurd rfl⟩
  | switches _ _ joined idleTask mode switched notIdle tick notKey =>
      have notWoken : wokenByKey ⟨before, event, after⟩ = none := wokenByKey_of_notKey notKey
      have switches : dispatched ⟨before, event, after⟩ = some after.core.current := by
        rw [dispatched, if_pos mode]
      refine ⟨joined, ?_⟩
      rw [notWoken, switches]
      cases switched with
      | toNext next rest contents current ready leftTicks stack =>
          refine ⟨?_, absurd rfl⟩
          rw [current, ready]
          exact contents
      | toIdle empty current ready leftTicks stack =>
          rcases waiting with inFront | behind
          · exact absurd (List.append_eq_nil_iff.mp empty).1 inFront
          · exact absurd ready behind
  | wakes llegit reader _ idleTask mode switched woken keyboardqueue =>
      have nodup := disciplined.placed.nodup .keyboardqueue
      have contents : before.queues.elements .keyboardqueue =
          reader :: after.queues.elements .keyboardqueue := keyboardqueue
      have isWoken : wokenByKey ⟨before, .keyboard llegit, after⟩ = some reader := by
        rw [contents, List.nodup_cons] at nodup
        simp [wokenByKey, contents, nodup.1]
      have switches : dispatched ⟨before, .keyboard llegit, after⟩ =
          some after.core.current := by
        rw [dispatched, if_pos mode]
      refine ⟨[core.current], ?_⟩
      rw [isWoken, switches]
      cases switched with
      | toNext next rest contents current ready leftTicks stack =>
          refine ⟨?_, fun _ => Option.some_ne_none _⟩
          rw [current, ready]
          exact contents
      | toIdle empty => simp at empty

end Steps

/-- From the step that puts `t` at the tail of the readyqueue, as long as it is
not dispatched: nobody else is dispatched twice, unless a key press wakes him
again, and those ahead of `t` are dispatched in their order. -/
theorem boundedWaiting {machine : Machine} {history : List (Transition PointerKernel Event)}
    {last : PointerKernel} (reaches : (zeos machine).Reaches history last)
    {earlier between : List Recorded} {put : Recorded}
    (recorded : record history = earlier ++ put :: between) {t : TaskId}
    (absent : t ∉ put.before.ready) (enters : t ∈ put.after.ready)
    (waits : ∀ transition ∈ between, dispatched transition ≠ some t) :
    (∃ joined, t ∈ joined ∧ WaitingLine.Serves put.before.ready (wokenByKey put) joined
        (dispatched put) put.after.ready) ∧
      (∀ u, (put :: between).countP (fun transition => dispatched transition = some u) ≤
        1 + between.countP fun transition => wokenByKey transition = some u) ∧
      t ∈ last.toSequences.ready ∧
      WaitingLine.turns wokenByKey dispatched between ++
          WaitingLine.ahead t last.toSequences.ready =
        WaitingLine.ahead t put.after.ready := by
  rcases (run_toSequences reaches).2 with ⟨first, start, run⟩
  rw [show history.map _ = _ from recorded] at run
  rcases run.around with ⟨before, step, after⟩
  rw [init_eq start] at before
  have disciplined := disciplined_of_run before (boot_disciplined machine)
  have entered := execute_disciplined disciplined step.1 step.2
  have along := after.along entered fun transition _ step disciplined =>
    execute_disciplined disciplined step.1 step.2
  have moves : ∀ transition ∈ between, t ∈ transition.before.ready →
      WaitingLine.Moves Kernel.ready wokenByKey dispatched transition :=
    fun transition member waiting => step_moves (along transition member).1
      (after.step_of_mem member) (.inl (List.ne_nil_of_mem waiting))
  have nodup : ((dispatched put).toList ++ put.after.ready).Nodup := by
    have unlinked : put.after.core.current ∉ put.after.ready := fun member =>
      entered.currentUnlinked ⟨_, member⟩
    have ready : put.after.ready.Nodup := entered.placed.nodup .readyqueue
    unfold dispatched
    split
    · exact List.nodup_cons.mpr ⟨unlinked, ready⟩
    · exact ready
  refine ⟨?_, fun u => ?_, ?_, ?_⟩
  · rcases step_moves disciplined step (.inr (List.ne_nil_of_mem enters)) with ⟨joined, serves⟩
    exact ⟨joined, serves.joins nodup absent enters, serves⟩
  · have bound : (dispatched put).toList.count u +
        between.countP (fun transition => dispatched transition = some u) ≤
          1 + between.countP fun transition => wokenByKey transition = some u :=
      WaitingLine.served_le after enters moves waits nodup u
    have here : (dispatched put).toList.count u = if dispatched put = some u then 1 else 0 := by
      cases dispatched put with
      | none => rfl
      | some v => simp [List.count_singleton]
    rw [List.countP_cons]
    simp only [decide_eq_true_eq]
    omega
  · exact (WaitingLine.waits_of_run after enters moves waits).1
  · exact WaitingLine.ahead_of_run after enters moves waits

def twoClones : List Event :=
  [.clone 1048576 1081344, .clone 1048576 1081344] ++ List.replicate 50 .clock

theorem boundedWaiting_clones :
    ∃ history last put between, (zeos Machine.sample).Reaches history last ∧
      put ∈ record history ∧ between.length = 50 ∧
      between.countP (fun transition => dispatched transition = some 2) = 1 ∧
      (∃ joined, 3 ∈ joined ∧ WaitingLine.Serves put.before.ready (wokenByKey put) joined
        (dispatched put) put.after.ready) ∧
      (∀ u, (put :: between).countP (fun transition => dispatched transition = some u) ≤
        1 + between.countP fun transition => wokenByKey transition = some u) ∧
      3 ∈ last.toSequences.ready ∧
      WaitingLine.turns wokenByKey dispatched between ++
          WaitingLine.ahead 3 last.toSequences.ready =
        WaitingLine.ahead 3 put.after.ready := by
  have computed : (replay twoClones ⟨Machine.sample.bootCore 0 1, bootLinks⟩).any (fun run =>
      passesAt 1 (fun put between => between.length = 50 ∧
        between.countP (fun transition => dispatched transition = some 2) = 1 ∧
        3 ∉ put.before.ready ∧ 3 ∈ put.after.ready ∧
        ∀ transition ∈ between, dispatched transition ≠ some 3) (record run.1)) = true := by
    decide +kernel
  rcases reaches_of_replay computed with ⟨history, last, reaches, found⟩
  rcases split_of_passesAt found with ⟨put, between, split, tested⟩
  rcases of_decide_eq_true tested with ⟨length, once, absent, enters, waits⟩
  refine ⟨history, last, put, between, reaches, ?_, length, once, ?_⟩
  · rw [split]
    simp
  · exact boundedWaiting reaches split absent enters waits

end Zeos
