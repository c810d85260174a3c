import Zeos.Foundation.Potential
import Zeos.RoundRobin

/-! # Response time

How many clock ticks can pass while a task is ready and does not get the processor. The
quantum counter runs wild only while `idle_task` is alone, so everybody else's turn is
over after a quantum.
-/

namespace Zeos

open Foundation Kernel

/-! ## Time slices -/

/-- While somebody is ready, or another task than `idle_task` has the processor, there is
a tick left, and no more than a quantum. -/
structure Paced (kernel : SequenceKernel) : Prop where
  disciplined : Disciplined kernel
  timed : kernel.processes.Timed
  slice : kernel.ready ≠ [] ∨ kernel.core.current ≠ kernel.core.idleTask →
    1 ≤ kernel.core.leftTicks ∧ kernel.core.leftTicks ≤ 50

section Steps

variable {machine : Machine} {kernel before after : SequenceKernel} {event : Event}

theorem Effect.ready_kept (effect : Effect kernel event after)
    (notCall : event = .resume ∨ event.IsInterrupt = true)
    (returned : after.core.inKernel = false) : after.ready = kernel.ready := by
  cases effect with
  | resume outcome =>
      cases outcome with
      | idles top => rfl
      | interrupt frame top kind => rfl
      | returns frame top kind => rfl
      | waited top => rfl
      | reads buffer count i top outcome loop =>
          cases loop.coarse with
          | finished ram circbuff readers result => rfl
          | waits ram circbuff readers buffer count i =>
              simp [finishCall, parkFront] at returned
          | queued ram circbuff readers => simp [finishCall, parkTail] at returned
  | clock outcome =>
      cases outcome with
      | continues left =>
          rw [leaveUnlessSwitched]
          split <;> rfl
      | idles expired idle => simp at returned
      | preempts expired notIdle => simp [parkTail] at returned
  | ignored llegit refused => rfl
  | keyboard llegit accepted outcome =>
      cases outcome with
      | buffered reader rest waiting incomplete =>
          rw [leaveUnlessSwitched]
          split <;> rfl
      | wakes reader rest waiting complete => simp [parkTail] at returned
  | _ => simp [Event.IsInterrupt] at notCall

theorem Paced.step (paced : Paced before) (step : (checkedZeos machine).step before event after) :
    Paced after := by
  have disciplined := execute_disciplined paced.disciplined step.1 step.2
  have timed := (step_processes paced.disciplined step).timed paced.disciplined.sound paced.timed
  refine ⟨disciplined, timed, fun busy => ?_⟩
  -- who is switched to from the readyqueue gets a quantum
  have reloaded : ∀ next, after.core.current = next →
      after.core.leftTicks = (after.core.task next).quantum →
        1 ≤ after.core.leftTicks ∧ after.core.leftTicks ≤ 50 := by
    intro next current leftTicks
    have quantum : (after.core.task next).quantum = 50 :=
      timed next (disciplined.live_not_free (.inr (.inl current.symm)))
    omega
  rcases step_effect paced.disciplined step with ⟨core, entry, entered, notIdle, effect⟩
  cases effect.scheduled entered entry.inKernel with
  | stays _ _ joined idleTask mode current leftTicks ready _ tick keys =>
      have before : before.ready ≠ [] ∨ before.core.current ≠ before.core.idleTask := by
        by_cases call : event = .resume ∨ event.IsInterrupt = true
        · rw [effect.ready_kept call mode, current, idleTask] at busy
          rwa [← entry.current, ← entry.idleTask]
        · rw [not_or, Bool.not_eq_true] at call
          rw [← entry.current, ← entry.idleTask]
          exact .inr (notIdle call.1 call.2)
      rcases paced.slice before with ⟨positive, bounded⟩
      have left := entry.leftTicks_eq positive bounded
      rw [leftTicks]
      by_cases isClock : event = .clock
      · have some : core.leftTicks ≠ 0 := tick isClock
        rw [if_pos isClock] at left
        dsimp only
        omega
      · rw [if_neg isClock] at left
        dsimp only
        omega
  | switches _ _ joined idleTask mode switched _ tick notKey =>
      cases switched with
      | toNext next rest contents current ready leftTicks stack =>
          exact reloaded next current leftTicks
      | toIdle empty current ready leftTicks stack =>
          rcases busy with waiting | running
          · exact absurd ready waiting
          · exact absurd (current.trans idleTask.symm) running
  | wakes llegit reader _ idleTask mode switched woken keyboardqueue =>
      cases switched with
      | toNext next rest contents current ready leftTicks stack =>
          exact reloaded next current leftTicks
      | toIdle empty => simp at empty

end Steps

theorem boot_paced (machine : Machine) : Paced ⟨machine.bootCore 0 1, bootSequences⟩ :=
  ⟨boot_disciplined machine, boot_timed machine, fun _ => ⟨show 1 ≤ 50 by decide, Nat.le_refl 50⟩⟩

theorem reachable_paced {machine : Machine} {kernel : SequenceKernel}
    (reachable : (checkedZeos machine).Reachable kernel) : Paced kernel := by
  apply reachable.invariant
  · intro first start
    rw [init_eq start]
    exact boot_paced machine
  · exact fun before event after step paced => paced.step step

/-- In every reachable state in which a task other than `idle_task` has the processor or
somebody is ready, the quantum counter is between one and the quantum. -/
theorem slicesBounded {machine : Machine} {kernel : PointerKernel}
    (reachable : (zeos machine).Reachable kernel)
    (busy : kernel.toSequences.ready ≠ [] ∨ kernel.core.current ≠ kernel.core.idleTask) :
    1 ≤ kernel.core.leftTicks ∧ kernel.core.leftTicks ≤ 50 := by
  rcases reachable with ⟨history, reaches⟩
  exact (reachable_paced ⟨_, (run_toSequences reaches).2⟩).slice busy

theorem slicesBounded_boot :
    1 ≤ (Machine.sample.bootCore 0 1).leftTicks ∧ (Machine.sample.bootCore 0 1).leftTicks ≤ 50 := by
  have reachable : (zeos Machine.sample).Reachable ⟨Machine.sample.bootCore 0 1, bootLinks⟩ :=
    ⟨[], _, boot_pointers Machine.sample, .nil⟩
  have busy : (Machine.sample.bootCore 0 1).current ≠ (Machine.sample.bootCore 0 1).idleTask :=
    show (1 : TaskId) ≠ 0 by decide
  have bounded := slicesBounded reachable (.inr busy)
  exact bounded

/-! ## Waiting in ticks -/

/-- Clock ticks that can still pass before `t` gets the processor: what is left of the
running slice, and a quantum for everybody ahead. -/
def ticksAhead (t : TaskId) (kernel : SequenceKernel) : Nat :=
  kernel.core.leftTicks + 50 * (WaitingLine.ahead t kernel.ready).length

def isTick (transition : Recorded) : Bool := transition.label = .clock

/-- The transition woke a reader, who is served first. -/
def isWoken (transition : Recorded) : Bool := (wokenByKey transition).isSome

section Ticks

variable {machine : Machine} {before after : SequenceKernel} {event : Event} {t : TaskId}

/-- A tick takes one from what is ahead, and a reader that is woken adds a slice in place of
at least one tick. -/
theorem Paced.pays (paced : Paced before) (step : (checkedZeos machine).step before event after)
    (waiting : t ∈ before.ready) (notServed : dispatched ⟨before, event, after⟩ ≠ some t) :
    (if isTick ⟨before, event, after⟩ then 1 else 0) + ticksAhead t after ≤
      ticksAhead t before + if isWoken ⟨before, event, after⟩ then 49 else 0 := by
  have later := paced.step step
  have nonempty : before.ready ≠ [] := List.ne_nil_of_mem waiting
  rcases paced.slice (.inl nonempty) with ⟨positive, bounded⟩
  rcases step_scheduled paced.disciplined step with ⟨core, entry, scheduled⟩
  have left := entry.leftTicks_eq positive bounded
  have quantum : (after.core.task after.core.current).quantum = 50 :=
    later.timed _ (later.disciplined.live_not_free (.inr (.inl rfl)))
  unfold ticksAhead isTick isWoken
  cases scheduled with
  | stays _ _ joined idleTask mode current leftTicks ready notIdle tick keys =>
      have ready : after.ready = before.ready ++ joined := ready
      have leftTicks : after.core.leftTicks = core.leftTicks := leftTicks
      rw [ready, WaitingLine.ahead_append waiting, leftTicks, left]
      by_cases isClock : event = .clock
      · simp only [isClock, decide_true, if_true]
        omega
      · simp only [isClock, decide_false, Bool.false_eq_true, if_false]
        omega
  | switches _ _ joined idleTask mode switched notIdle tick notKey =>
      cases switched with
      | toNext next rest contents current ready leftTicks stack =>
          have contents : before.ready ++ joined = next :: rest := contents
          have different : next ≠ t := by
            intro same
            apply notServed
            rw [dispatched, if_pos mode]
            exact congrArg some (current.trans same)
          have shorter : (WaitingLine.ahead t before.ready).length =
              (WaitingLine.ahead t after.ready).length + 1 := by
            rw [← @WaitingLine.ahead_append _ _ joined _ _ waiting, contents,
              WaitingLine.ahead_cons different, ready]
            rfl
          rw [leftTicks, ← current, quantum, shorter]
          split <;> split <;> omega
      | toIdle empty current ready leftTicks stack =>
          exact absurd (List.append_eq_nil_iff.mp empty).1 nonempty
  | wakes llegit reader _ idleTask mode switched woken keyboardqueue =>
      cases switched with
      | toNext next rest contents current ready leftTicks stack =>
          rw [List.cons_append, List.cons.injEq] at contents
          have remaining : after.ready = before.ready ++ [core.current] :=
            ready.trans contents.2.symm
          have isWoken : (wokenByKey ⟨before, .keyboard llegit, after⟩).isSome = true := by
            have waits : before.queues.elements .keyboardqueue =
                reader :: after.queues.elements .keyboardqueue := keyboardqueue
            have nodup := paced.disciplined.placed.nodup .keyboardqueue
            rw [waits, List.nodup_cons] at nodup
            simp [wokenByKey, waits, nodup.1]
          rw [remaining, WaitingLine.ahead_append waiting, leftTicks, ← current, quantum, isWoken]
          simp only [if_true]
          rw [if_neg (by simp)]
          omega
      | toIdle empty => simp at empty

end Ticks

/-! ## The bound -/

theorem Disciplined.ahead_length {kernel : SequenceKernel} (disciplined : Disciplined kernel)
    {t : TaskId} (waiting : t ∈ kernel.ready) :
    (WaitingLine.ahead t kernel.ready).length + 2 ≤ nrTasks := by
  have ready : kernel.ready.Nodup := disciplined.placed.nodup .readyqueue
  have unlinked : kernel.core.current ∉ kernel.ready := fun member =>
    disciplined.currentUnlinked ⟨_, member⟩
  have sublist : (WaitingLine.ahead t kernel.ready).Sublist kernel.ready :=
    List.takeWhile_sublist _
  have absent : t ∉ WaitingLine.ahead t kernel.ready := by
    intro member
    have other := List.mem_takeWhile_imp member
    simp at other
  have others : (t :: kernel.core.current :: WaitingLine.ahead t kernel.ready).Nodup := by
    refine List.nodup_cons.mpr ⟨?_, List.nodup_cons.mpr ⟨?_, ready.sublist sublist⟩⟩
    · rw [List.mem_cons, not_or]
      exact ⟨fun same => unlinked (same ▸ waiting), absent⟩
    · exact fun member => unlinked (sublist.subset member)
  have length := others.length_le_card
  rw [Fintype.card_fin] at length
  exact length

/-- As long as a ready task is not dispatched, the clock ticks fewer times than the slices
of the tasks ahead of it last, and a slice more for each reader that is woken. Without
such readers it waits for less than nine slices. -/
theorem responseTime {machine : Machine} {first last : PointerKernel}
    {history : List (Transition PointerKernel Event)} (reachable : (zeos machine).Reachable first)
    (run : (zeos machine).Run first history last) {t : TaskId}
    (waiting : t ∈ first.toSequences.ready)
    (waits : ∀ transition ∈ record history, dispatched transition ≠ some t) :
    (record history).countP isTick <
        50 * ((WaitingLine.ahead t first.toSequences.ready).length + 1) +
          49 * (record history).countP isWoken ∧
      ((record history).countP isWoken = 0 → (record history).countP isTick < 450) := by
  have mirrored := reachable_mirrored reachable
  rcases reachable with ⟨earlier, before⟩
  have paced := reachable_paced ⟨_, (run_toSequences before).2⟩
  let Waits (kernel : SequenceKernel) : Prop := Paced kernel ∧ t ∈ kernel.ready
  let cost (transition : Recorded) : Nat := if isTick transition then 1 else 0
  let credit (transition : Recorded) : Nat := if isWoken transition then 49 else 0
  have paid : Waits last.toSequences ∧
      ((record history).map cost).sum + ticksAhead t last.toSequences ≤
        ticksAhead t first.toSequences + ((record history).map credit).sum := by
    apply (mirrored.run run).2.paid ⟨paced, waiting⟩
    rintro transition member step ⟨paced, waiting⟩
    have notServed := waits transition member
    rcases step_moves paced.disciplined step (.inl (List.ne_nil_of_mem waiting)) with
      ⟨joined, serves⟩
    exact ⟨⟨paced.step step, serves.mem waiting notServed⟩, paced.pays step waiting notServed⟩
  rcases paid with ⟨⟨later, stillWaiting⟩, paid⟩
  rw [TransitionSystem.sum_indicator, TransitionSystem.sum_indicator, one_mul] at paid
  have positive := (later.slice (.inl (List.ne_nil_of_mem stillWaiting))).1
  have bounded := (paced.slice (.inl (List.ne_nil_of_mem waiting))).2
  have few := paced.disciplined.ahead_length waiting
  unfold ticksAhead at paid
  constructor
  · omega
  · intro none
    rw [none] at paid
    have tasks : nrTasks = 10 := rfl
    omega

def twoSlices : List Event :=
  List.replicate 50 .clock ++ [.resume] ++ List.replicate 49 .clock

/-- The last of two clones has still not been dispatched after 99 ticks, one fewer than two
slices. -/
theorem responseTime_clones :
    ∃ first last history, (zeos Machine.sample).Reachable first ∧
      (zeos Machine.sample).Run first history last ∧
      (WaitingLine.ahead 3 first.toSequences.ready).length = 1 ∧
      (record history).countP isTick = 99 ∧
      (record history).countP isTick <
        50 * ((WaitingLine.ahead 3 first.toSequences.ready).length + 1) +
          49 * (record history).countP isWoken := by
  have computed : (replay [.clone 1048576 1081344, .clone 1048576 1081344]
      ⟨Machine.sample.bootCore 0 1, bootLinks⟩).any (fun start =>
        (replay twoSlices start.2).any fun run =>
          decide (3 ∈ start.2.toSequences.ready ∧
            (WaitingLine.ahead 3 start.2.toSequences.ready).length = 1 ∧
            (record run.1).countP isTick = 99 ∧
            ∀ transition ∈ record run.1, dispatched transition ≠ some 3)) = true := by
    decide +kernel
  rcases reaches_of_replay computed with ⟨earlier, first, reaches, found⟩
  rcases (Option.any_eq_true _ _).mp found with ⟨⟨history, last⟩, replayed, checked⟩
  rcases of_decide_eq_true checked with ⟨waiting, one, ticks, waits⟩
  have run := @replay_run Machine.sample _ _ _ _ replayed
  exact ⟨first, last, history, reaches.reachable, run, one, ticks,
    (responseTime reaches.reachable run waiting waits).1⟩

end Zeos
