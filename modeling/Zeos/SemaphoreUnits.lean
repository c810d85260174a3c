import Zeos.Indication

/-! # How many waits an initial value lets pass

The waits on a semaphore after its `sys_sem_init`, with no signal: which of them return
at once and which block.
-/

namespace Zeos

open Foundation Kernel

section Units

variable (sem : SemId)

/-- The calls of `sys_sem_wait` on the semaphore. -/
def waitCalls (history : List Recorded) : Nat :=
  history.countP fun transition => transition.label.waitsFor sem

def Unsignalled (history : List Recorded) : Prop :=
  ∀ transition ∈ history, transition.label.signals sem = false ∧ ¬Destroys sem transition

def PassesAtOnce (transition : Recorded) : Prop :=
  transition.after.UserMode transition.before.core.current ∧
    (transition.after.core.task transition.before.core.current).context.eax = 0

def BlocksCaller (transition : Recorded) : Prop :=
  transition.before.core.current ∈ (transition.after.semView sem).waiters

/-- In these steps the first `value` waits pass and the others block. -/
def LetsPass (value : Nat) (history : List Recorded) : Prop :=
  ∀ front wait back, history = front ++ wait :: back → wait.label.waitsFor sem = true →
    (waitCalls sem front < value → PassesAtOnce wait) ∧
      (value ≤ waitCalls sem front → BlocksCaller sem wait)

end Units

section Steps

variable {machine : Machine} {before after : SequenceKernel} {sem : SemId}

theorem wait_decided (told : Told before) {event : Event} (waitsFor : event.waitsFor sem = true)
    (owned : (before.core.semArray sem).ownerPid ≠ -1)
    (step : (checkedZeos machine).step before event after) :
    (0 < (before.core.semArray sem).counter → PassesAtOnce ⟨before, event, after⟩) ∧
      ((before.core.semArray sem).counter ≤ 0 → BlocksCaller sem ⟨before, event, after⟩) := by
  cases event with
  | semWait nSem =>
      have index : semIndex nSem = some sem := of_decide_eq_true waitsFor
      rcases step_effect told.disciplined step with ⟨core, entry, entered, -, effect⟩
      have caller : core.current = before.core.current := entry.current
      rw [← entry.semArray] at owned
      cases effect with
      | semWait _ outcome =>
          cases outcome with
          | refused unusable => exact absurd (unusable sem index) owned
          | blocks other index' _ exhausted =>
              cases index.symm.trans index'
              rw [← entry.semArray]
              refine ⟨fun positive => absurd exhausted (Int.not_le.mpr positive), fun _ => ?_⟩
              change before.core.current ∈
                (finishCall (Kernel.parkTail _ _ _, none)).queues.elements (.blocked sem)
              rw [finishCall_queues, parkTail_elements entered _ Queue.noConfusion, if_pos rfl,
                ← caller]
              exact List.mem_append_right _ (List.mem_singleton_self _)
          | passes other index' _ positive =>
              cases index.symm.trans index'
              rw [entry.semArray] at owned positive
              refine ⟨fun _ => ⟨⟨caller, rfl⟩, passes_eax told index owned positive step⟩, ?_⟩
              exact fun exhausted => absurd positive (Int.not_lt.mpr exhausted)
  | _ => cases waitsFor

theorem wait_keepsOwner {nSem : Int} (disciplined : Disciplined before)
    (step : (checkedZeos machine).step before (.semWait nSem) after) (other : SemId) :
    (after.core.semArray other).ownerPid = (before.core.semArray other).ownerPid := by
  rcases step_effect disciplined step with ⟨core, entry, -, -, effect⟩
  rw [← entry.semArray]
  cases effect with
  | semWait _ outcome =>
      rw [finishCall_semArray]
      cases outcome with
      | refused unusable => rfl
      | blocks called index owned exhausted => simp
      | passes called index owned positive => simp

theorem units_left {first last : SequenceKernel} {history : List Recorded} {value : Nat}
    (run : (checkedZeos machine).Run first history last) (disciplined : Disciplined first)
    (owned : (first.semView sem).ownerPid ≠ -1) (counter : (first.semView sem).counter = value)
    (unsignalled : Unsignalled sem history) :
    (last.semView sem).counter = (value - waitCalls sem history : Nat) ∧
      (last.semView sem).ownerPid ≠ -1 := by
  induction run with
  | nil => exact ⟨counter, owned⟩
  | snoc earlier step induction =>
      rename_i events middle label last
      rcases induction fun transition member => unsignalled transition (by simp [member]) with
        ⟨left, stillOwned⟩
      rcases unsignalled ⟨middle, label, last⟩ (by simp) with ⟨notSignal, kept⟩
      have steps := step_semaphores (disciplined_of_run earlier disciplined) step sem
      have counted : waitCalls sem (events ++ [⟨middle, label, last⟩]) =
          waitCalls sem events + if label.waitsFor sem then 1 else 0 := by
        rw [waitCalls, List.countP_append, List.countP_singleton]
        rfl
      rw [counted]
      unfold Destroys at kept
      unfold Steps at steps
      dsimp only at notSignal kept steps
      generalize middle.semView sem = view at *
      generalize last.semView sem = later at *
      cases steps with
      | untouched view uncalled =>
          rw [(uncalled stillOwned).1]
          exact ⟨left, stillOwned⟩
      | passes units owner waiters wait positive =>
          refine ⟨?_, stillOwned⟩
          rw [wait, if_pos rfl]
          dsimp only at left ⊢
          omega
      | blocks units owner waiters wait spent =>
          refine ⟨?_, stillOwned⟩
          rw [wait, if_pos rfl]
          dsimp only at left ⊢
          omega
      | counts units owner signal =>
          rw [signal] at notSignal
          cases notSignal
      | wakes units owner waiter rest signal =>
          rw [signal] at notSignal
          cases notSignal
      | initialised units nSem value init index => exact absurd rfl stillOwned
      | destroyed units owner waiters owned => exact absurd ⟨owned, rfl⟩ kept

end Steps

/-- Whatever the processes do next, as long as they neither signal nor destroy the semaphore:
the first `value` waits pass, those after them block, and no wait goes wrong. -/
def ValueHonoured (machine : Machine) (kernel : PointerKernel) (sem : SemId) (value : Nat) : Prop :=
  ∀ history last, (zeos machine).Run kernel history last → Unsignalled sem (record history) →
    LetsPass sem value (record history) ∧
      ∀ nSem, semIndex nSem = some sem → (Event.semWait nSem).Enabled last.core →
        ∃ after, last.execute (.semWait nSem) = .ok after

section Initialised

variable {machine : Machine} {before after : PointerKernel} {nSem : Int} {sem : SemId} {value : Nat}

theorem run_since (reachable : (zeos machine).Reachable before)
    (step : (zeos machine).step before (.semInit nSem value) after)
    {history : List (Transition PointerKernel Event)} {last : PointerKernel}
    (run : (zeos machine).Run after history last) :
    Mirrored last ∧ Told before.toSequences ∧ before.toSequences.processes.Numbered ∧
      (checkedZeos machine).step before.toSequences (.semInit nSem value) after.toSequences ∧
      (checkedZeos machine).Run after.toSequences (record history) last.toSequences := by
  rcases reachable with ⟨earlier, first, start, led⟩
  have whole : (zeos machine).Reaches
      ((earlier ++ [⟨before, .semInit nSem value, after⟩]) ++ history) last :=
    ⟨first, start, (TransitionSystem.Run.snoc led step).append run⟩
  rcases run_toSequences whole with ⟨mirrored, boot, begins, mapped⟩
  rw [List.append_assoc, List.map_append, List.map_append, List.map_singleton,
    List.singleton_append] at mapped
  rcases mapped.around with ⟨until', init, since⟩
  have numbered := reachable_numbered ⟨boot, begins, until'⟩
  rw [init_eq begins] at until'
  exact ⟨mirrored, until'.invariant (boot_told machine) fun _ _ step told => told.step step,
    numbered, init, since⟩

theorem Mirrored.execute_semWait {kernel : PointerKernel} (mirrored : Mirrored kernel)
    (enabled : (Event.semWait nSem).Enabled kernel.core) :
    ∃ after, kernel.execute (.semWait nSem) = .ok after := by
  rcases execute_semWait_total mirrored.disciplined nSem with ⟨result, executed⟩
  cases outcome : kernel.execute (.semWait nSem) with
  | ok after => exact ⟨after, rfl⟩
  | error failure =>
      rw [((mirrored.execute enabled).2 failure).mp outcome] at executed
      cases executed

theorem semInit_caller {before after : SequenceKernel} (disciplined : Disciplined before)
    (step : (checkedZeos machine).step before (.semInit nSem value) after) :
    after.core.current = before.core.current ∧ after.core.inKernel = false ∧
      after.core.idleTask = before.core.idleTask := by
  rcases step_effect disciplined step with ⟨core, entry, -, -, effect⟩
  cases effect with
  | semInit _ _ outcome =>
      cases outcome <;> exact ⟨entry.current, rfl, entry.idleTask⟩

theorem honoured_of_le (reachable : (zeos machine).Reachable before)
    (index : semIndex nSem = some sem)
    (step : (zeos machine).step before (.semInit nSem value) after)
    (success : (after.core.task before.core.current).context.eax = 0)
    (range : value ≤ 2147483647) : ValueHonoured machine after sem value := by
  intro history last run unsignalled
  rcases run_since reachable step run with ⟨mirrored, told, numbered, init, since⟩
  have initialises : Initialises sem value
      ⟨before.toSequences, .semInit nSem value, after.toSequences⟩ := ⟨⟨nSem, rfl, index⟩, success⟩
  rcases initialises.semView range told.disciplined numbered init with ⟨pid, owned, view⟩
  have disciplined := (told.step init).disciplined
  have units {front : List Recorded} {middle : SequenceKernel}
      (led : (checkedZeos machine).Run after.toSequences front middle)
      (quiet : Unsignalled sem front) :
      (middle.semView sem).counter = (value - waitCalls sem front : Nat) ∧
        (middle.semView sem).ownerPid ≠ -1 :=
    units_left led disciplined (by rw [view]; exact owned) (by rw [view]) quiet
  constructor
  · intro front wait back parts waitsFor
    rw [parts] at since
    rcases since.around with ⟨led, step, -⟩
    have quiet : Unsignalled sem front := fun transition member =>
      unsignalled transition (by rw [parts]; simp [member])
    have toldThere : Told wait.before :=
      led.invariant (told.step init) fun _ _ step told => told.step step
    rcases units led quiet with ⟨left, stillOwned⟩
    have decided := wait_decided toldThere waitsFor stillOwned step
    rw [show (wait.before.core.semArray sem).counter = _ from left] at decided
    exact ⟨fun fewer => decided.1 (by omega), fun enough => decided.2 (by omega)⟩
  · intro nSem' _ enabled
    exact mirrored.execute_semWait enabled

theorem not_honoured_of_lt (reachable : (zeos machine).Reachable before)
    (index : semIndex nSem = some sem)
    (step : (zeos machine).step before (.semInit nSem value) after)
    (success : (after.core.task before.core.current).context.eax = 0)
    (unsigned : IsUnsigned value) (large : 2147483647 < value) :
    ¬ValueHonoured machine after sem value := by
  intro honoured
  rcases run_since reachable step .nil with ⟨mirrored, told, numbered, init, -⟩
  have initialises : Initialises sem value
      ⟨before.toSequences, .semInit nSem value, after.toSequences⟩ := ⟨⟨nSem, rfl, index⟩, success⟩
  rcases initialises.semView_signed told.disciplined numbered init with ⟨pid, owned, view⟩
  have negative : toSigned value < 0 := by
    unfold toSigned
    unfold IsUnsigned at unsigned
    rw [Nat.mod_eq_of_lt unsigned, if_neg (by omega)]
    omega
  have counter : (after.toSequences.core.semArray sem).counter = toSigned value :=
    congrArg SemView.counter view
  have ownedNow : (after.toSequences.core.semArray sem).ownerPid ≠ -1 := by
    rw [show (after.toSequences.core.semArray sem).ownerPid = pid from
      congrArg SemView.ownerPid view]
    exact owned
  -- the caller of `sys_sem_init` waits at once
  have caller : after.toSequences.core.current = before.toSequences.core.current ∧
      after.toSequences.core.inKernel = false ∧
      after.toSequences.core.idleTask = before.toSequences.core.idleTask :=
    semInit_caller told.disciplined init
  have enabled : (Event.semWait nSem).Enabled after.core := by
    refine ⟨step.1.1.1, ?_⟩
    rw [if_neg Event.noConfusion]
    refine ⟨caller.2.1, .inr ?_⟩
    rw [show after.core.current = _ from caller.1, show after.core.idleTask = _ from caller.2.2]
    exact step.1.notIdle Event.noConfusion rfl
  rcases mirrored.execute_semWait enabled with ⟨blocked, executed⟩
  rcases (mirrored.execute enabled).1 blocked executed with ⟨stillMirrored, mapped⟩
  have later : (checkedZeos machine).step after.toSequences (.semWait nSem) blocked.toSequences :=
    ⟨enabled, mapped⟩
  have waitsFor : (Event.semWait nSem).waitsFor sem = true := decide_eq_true index
  have waits : (zeos machine).Run after [⟨after, .semWait nSem, blocked⟩] blocked :=
    .single ⟨enabled, executed⟩
  have quiet : Unsignalled sem (record [⟨after, .semWait nSem, blocked⟩]) := by
    intro transition member
    rw [List.mem_singleton.mp member]
    refine ⟨rfl, fun destroyed => ?_⟩
    have kept := wait_keepsOwner (told.step init).disciplined later sem
    exact ownedNow (kept.symm.trans destroyed.2)
  have passes := ((honoured _ _ waits quiet).1 [] _ [] rfl waitsFor).1 (by
    rw [waitCalls, List.countP_nil]
    omega)
  have waiting := (wait_decided (told.step init) waitsFor ownedNow later).2 (by omega)
  have running : blocked.toSequences.core.current = after.toSequences.core.current := passes.1.1
  apply stillMirrored.disciplined.currentUnlinked
  rw [running]
  exact ⟨_, waiting⟩

end Initialised

/-- The value of a semaphore is honoured exactly when it is a non-negative `int`. -/
theorem valueHonoured {machine : Machine} {before after : PointerKernel} {nSem : Int}
    {sem : SemId} {value : Nat} (reachable : (zeos machine).Reachable before)
    (index : semIndex nSem = some sem)
    (step : (zeos machine).step before (.semInit nSem value) after)
    (success : (after.core.task before.core.current).context.eax = 0) :
    ValueHonoured machine after sem value ↔ value ≤ 2147483647 := by
  constructor
  · intro honoured
    by_contra large
    exact not_honoured_of_lt reachable index step success step.1.1.2 (by omega) honoured
  · exact honoured_of_le reachable index step success

theorem boot_semInit {value : Nat} (unsigned : IsUnsigned value)
    (computed : (match Kernel.execute (.semInit 0 value)
        (⟨Machine.sample.bootCore 0 1, bootLinks⟩ : PointerKernel) with
      | .ok after => decide ((after.core.task 1).context.eax = 0)
      | .error _ => false) = true) :
    ∃ before after, (zeos Machine.sample).Reachable before ∧
      (zeos Machine.sample).step before (.semInit 0 value) after ∧
      (after.core.task before.core.current).context.eax = 0 := by
  have reachable : (zeos Machine.sample).Reachable ⟨Machine.sample.bootCore 0 1, bootLinks⟩ :=
    ⟨[], _, boot_pointers Machine.sample, .nil⟩
  have enabled : (Event.semInit 0 value).Enabled (Machine.sample.bootCore 0 1) := by
    refine ⟨⟨by decide, unsigned⟩, ?_⟩
    rw [if_neg Event.noConfusion]
    exact ⟨rfl, .inr (by decide)⟩
  cases executed : Kernel.execute (.semInit 0 value)
      (⟨Machine.sample.bootCore 0 1, bootLinks⟩ : PointerKernel) with
  | error fault =>
      rw [executed] at computed
      cases computed
  | ok after =>
      rw [executed] at computed
      exact ⟨_, after, reachable, ⟨enabled, executed⟩, of_decide_eq_true computed⟩

theorem valueHonoured_two :
    ∃ before after, (zeos Machine.sample).step before (.semInit 0 2) after ∧
      ValueHonoured Machine.sample after 0 2 := by
  rcases @boot_semInit 2 (by decide) (by decide +kernel) with
    ⟨before, after, reachable, step, success⟩
  exact ⟨before, after, step, (valueHonoured reachable rfl step success).mpr (by decide)⟩

/-- The smallest value that `int` cannot hold. -/
theorem valueHonoured_half :
    ∃ before after, (zeos Machine.sample).Reachable before ∧
      (zeos Machine.sample).step before (.semInit 0 2147483648) after ∧
      (after.core.task before.core.current).context.eax = 0 ∧
      ¬ValueHonoured Machine.sample after 0 2147483648 := by
  rcases @boot_semInit 2147483648 (by decide) (by decide +kernel) with
    ⟨before, after, reachable, step, success⟩
  exact ⟨before, after, reachable, step, success,
    not_honoured_of_lt reachable rfl step success (by decide) (by decide)⟩

end Zeos
