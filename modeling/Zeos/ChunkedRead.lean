import Zeos.Delivery
import Zeos.Progress

/-! # A single reader

A reader that waits alone for up to 255 characters is woken by the last of them and
takes them all. It never sees more, so that whoever asks for more waits for ever.
-/

namespace Zeos

open Foundation Kernel

def Event.pressed : Event → List UInt8
  | .keyboard llegit => if llegit.toNat < 128 then [charOf llegit] else []
  | _ => []

def typed (history : List Recorded) : List UInt8 :=
  history.flatMap fun transition => transition.label.pressed

def Event.NoRead (event : Event) : Prop :=
  ∀ fd buffer count i, event = .read fd buffer count i → ¬ReadAccepted fd buffer count

def Mm.MapsBlock (mm : Mm) (pt : DirSlot) (buffer : Nat) (count : Int) : Prop :=
  ∀ k < count.toNat, mm.Mapped pt (toUnsigned (buffer + k) / pageSize)

instance (mm : Mm) (pt : DirSlot) (buffer : Nat) (count : Int) :
    Decidable (mm.MapsBlock pt buffer count) :=
  inferInstanceAs (Decidable (∀ _ < _, _))

/-- The read of `t`, after `pressed` make codes: `t` waits alone in its loop, or
has just been woken there. -/
inductive Input.Reading (view : Input) (resumed : Option TaskId) (t : TaskId) (buffer : Nat)
    (count : Int) (pressed : Nat) : Prop
  | blocked (waiting : view.waiting = [t])
      (top : view.top t = some (.sysReadLoop buffer count 0)) (wanted : view.wanted t = count)
      (missing : view.ring.counter < count) (position : view.ring.counter = pressed) :
      view.Reading resumed t buffer count pressed
  | woken (waiting : view.waiting = []) (isResumed : resumed = some t)
      (top : view.top t = some (.sysReadLoop buffer count 0))
      (complete : view.ring.counter = count) (position : view.ring.counter = pressed) :
      view.Reading resumed t buffer count pressed

structure Input.Idle (view : Input) (resumed : Option TaskId) : Prop where
  waiting : view.waiting = []
  drained : view.ring.counter = 0
  unread : Unread view resumed

/-- The read of `t` goes on from its beginning, and when it is woken there is more
than it sees. -/
structure Input.Stuck (view : Input) (resumed : Option TaskId) (t : TaskId) (buffer : Nat)
    (count : Int) : Prop where
  looping : view.Looping resumed t buffer count 0
  waits : view.ring.counter < 256 → view.wanted t = count ∧ resumed ≠ some t

section Protocol

variable {view after : Input} {event : Event} {resumed switched : Option TaskId} {t : TaskId}
  {buffer pressed : Nat} {count : Int}

theorem unread_none (view : Input) : Unread view none := by
  intro t none
  cases none

theorem Input.Reading.progress (reading : view.Reading resumed t buffer count pressed) :
    (t ∈ view.waiting ∧ (pressed : Int) < count) ∨
      (view.waiting = [] ∧ resumed = some t ∧ (pressed : Int) = count) := by
  cases reading with
  | blocked waiting top wanted missing position =>
      refine .inl ⟨by simp [waiting], ?_⟩
      omega
  | woken waiting isResumed top complete position =>
      refine .inr ⟨waiting, isResumed, ?_⟩
      omega

theorem Input.Reading.looping (reading : view.Reading resumed t buffer count pressed) :
    view.Looping resumed t buffer count 0 := by
  cases reading with
  | blocked waiting top => exact ⟨top, .inl (by simp [waiting])⟩
  | woken waiting isResumed top => exact ⟨top, .inr isResumed⟩

theorem LoopStep.serves (loop : LoopStep view buffer count 0 after switched)
    (alone : view.waiting = []) (complete : view.ring.counter = count) (few : count ≤ 255) :
    after.Idle switched ∧ switched = none ∧ after.caller = view.caller := by
  have sees : view.ring.visible = view.ring.counter := Circbuff.visible_of_lt (by omega)
  cases loop with
  | finished taken stored oldest enough ends ring waiting wanted undisturbed caller =>
      have whole : taken.length = view.ring.counter := by
        rcases ends with ends | ⟨nothing, less⟩
        · omega
        · rw [nothing, List.length_nil]
          omega
      refine ⟨⟨waiting.trans alone, ?_, unread_none after⟩, rfl, caller⟩
      rw [ring, Circbuff.pops_counter whole.le, whole, Nat.sub_self]
  | waits _ taken stored oldest enough less drained ring =>
      have left := Circbuff.pops_visible enough
      rw [← ring, drained] at left
      omega

theorem LoopStep.begins (loop : LoopStep view buffer count 0 after switched)
    (alone : view.waiting = []) (wanted : view.wanted view.caller = count)
    (empty : view.ring.counter = 0) (some' : 0 < count) :
    after.Reading switched view.caller buffer count 0 ∧ switched ≠ some view.caller := by
  have sees : view.ring.visible = 0 := by
    rw [Circbuff.visible_of_lt (by omega), empty]
  cases loop with
  | finished taken stored oldest enough ends =>
      rcases ends with ends | ⟨-, none⟩ <;> omega
  | waits _ taken stored oldest enough less drained ring waiting wanted' undisturbed top unread =>
      have nothing : taken.length = 0 := by omega
      rw [nothing] at ring top
      have still : after.ring.counter = 0 := by
        rw [ring]
        exact empty
      refine ⟨.blocked (by rw [waiting, alone]) top ?_ ?_ still, fun isSwitched => ?_⟩
      · rw [wanted', wanted]
      · omega
      · exact unread.not_loop isSwitched top

/-- A key press for a reader that waits alone reaches the ring when it is a make
code. -/
theorem arrives_of_alone (waiting : view.waiting = [t])
    (room : view.ring.counter < circbuffSize) : view.arrives event = event.pressed := by
  have notFull : ¬view.ring.full = true := fun full =>
    absurd (Circbuff.full_iff.mp full) (Nat.ne_of_lt room)
  have someone : view.waiting ≠ [] := by simp [waiting]
  unfold Input.arrives Event.pressed
  cases event with
  | keyboard llegit =>
      by_cases make : llegit.toNat < 128
      · have accepts : view.Accepts llegit := ⟨notFull, make, someone⟩
        exact (if_pos accepts).trans (if_pos make).symm
      · have refused : ¬view.Accepts llegit := fun accepts => make accepts.2.1
        exact (if_neg refused).trans (if_neg make).symm
  | _ => rfl

theorem pressed_of_accepts {llegit : UInt8} (accepts : view.Accepts llegit) :
    (Event.keyboard llegit).pressed = [charOf llegit] := if_pos accepts.2.1

theorem Input.Reading.step (reading : view.Reading resumed t buffer count pressed)
    (few : count ≤ 255) (order : InputOrder view resumed) (turn : Turn view event resumed)
    (step : InputStep view event after switched) (noRead : event.NoRead) :
    view.arrives event = event.pressed ∧
      ((after.Reading switched t buffer count (pressed + event.pressed.length) ∧
          resumed ≠ some t) ∨
        (event = .resume ∧ resumed = some t ∧ after.Idle switched ∧ switched = none ∧
          after.caller = t ∧ (pressed : Int) = count)) := by
  have size : circbuffSize = 666 := rfl
  cases reading with
  | blocked waiting top wants missing position =>
      have arrives : view.arrives event = event.pressed := arrives_of_alone waiting (by omega)
      have member : t ∈ view.waiting := by simp [waiting]
      have notResumed : resumed ≠ some t := fun isResumed =>
        turn.absent ((turn.of_resumed isResumed).2 ▸ member)
      refine ⟨arrives, .inl ⟨?_, notResumed⟩⟩
      cases step with
      | quiet _ _ _ ring waiting' wanted undisturbed unread notLoop notRead notKey =>
          have nothing : event.pressed = [] := by
            rw [← arrives]
            unfold Input.arrives
            split
            · exact if_neg (notKey _ rfl)
            · rfl
          rw [nothing, List.length_nil, Nat.add_zero]
          refine .blocked (waiting'.trans waiting) ((undisturbed t member).trans top) ?_ ?_ ?_
          · rwa [wanted]
          · rwa [ring]
          · rwa [ring]
      | pushes llegit _ accepts reader rest first incomplete ring waiting' wanted undisturbed =>
          have isReader : t = reader := by
            rw [waiting] at first
            exact (List.cons.inj first).1
          subst isReader
          have counter := order.ring.push_counter accepts.room (charOf llegit)
          rw [Input.Completes, not_or, counter, Circbuff.full_iff, counter, wants] at incomplete
          rw [pressed_of_accepts accepts]
          refine .blocked (waiting'.trans waiting) ((undisturbed t member).trans top) ?_ ?_ ?_
          · rwa [wanted]
          · rw [ring, counter]
            omega
          · rw [ring, counter, List.length_singleton]
            omega
      | wakes llegit _ accepts reader rest first complete ring waiting' wanted undisturbed =>
          rw [waiting] at first
          have isReader : t = reader := (List.cons.inj first).1
          subst isReader
          have counter := order.ring.push_counter accepts.room (charOf llegit)
          rw [Input.Completes, counter, Circbuff.full_iff, counter, wants] at complete
          rw [pressed_of_accepts accepts]
          refine .woken (waiting'.trans (List.cons.inj first).2.symm) rfl
            ((undisturbed t member).trans top) ?_ ?_
          · rw [ring, counter]
            omega
          · rw [ring, counter, List.length_singleton]
            omega
      | calls fd buffer' count' i' _ _ accepted => exact absurd accepted (noRead _ _ _ _ rfl)
      | queues fd buffer' count' i' _ _ accepted => exact absurd accepted (noRead _ _ _ _ rfl)
      | reads buffer' count' i' _ _ top' loop =>
          -- somebody else in the loop would have `t` queued
          have queued := (order.loop _ _ _ _ (turn.resumes rfl) top').2 t member
          rw [queued] at top
          cases top
  | woken waiting isResumed top complete position =>
      rcases turn.of_resumed isResumed with ⟨isResume, isCaller⟩
      have looping : view.Looping resumed t buffer count 0 := ⟨top, .inr isResumed⟩
      have loop := (looping.own turn step isCaller).2
      rcases loop.serves waiting complete few with ⟨idle, nobody, caller⟩
      rw [isResume]
      refine ⟨rfl, .inr ⟨rfl, isResumed, idle, nobody, caller.trans isCaller, ?_⟩⟩
      omega

theorem Input.Idle.step (idle : view.Idle resumed) (turn : Turn view event resumed)
    (step : InputStep view event after switched) (noRead : event.NoRead) :
    after.Idle switched := by
  rcases idle with ⟨waiting, drained, unread⟩
  cases step with
  | quiet _ _ _ ring waiting' wanted undisturbed unread' =>
      exact ⟨waiting'.trans waiting, by rw [ring, drained], unread'⟩
  | pushes llegit _ accepts => exact absurd waiting accepts.2.2
  | wakes llegit _ accepts => exact absurd waiting accepts.2.2
  | calls fd buffer count i _ _ accepted => exact absurd accepted (noRead _ _ _ _ rfl)
  | queues fd buffer count i _ _ accepted => exact absurd accepted (noRead _ _ _ _ rfl)
  | reads buffer count i _ _ top =>
      exact absurd (.inr ⟨buffer, count, i, top⟩) (unread view.caller (turn.resumes rfl))

theorem LoopStep.stuck (loop : LoopStep view buffer count 0 after switched)
    (many : 256 ≤ view.ring.counter)
    (some' : 0 < count) : after.Stuck switched view.caller buffer count := by
  have unseen := Circbuff.visible_of_le many
  cases loop with
  | finished taken stored oldest enough ends =>
      rcases ends with ends | ⟨-, none⟩ <;> omega
  | waits _ taken stored oldest enough less drained ring waiting wanted undisturbed top unread =>
      have nothing : taken.length = 0 := by omega
      rw [nothing] at ring top
      refine ⟨⟨top, .inl (by simp [waiting])⟩, fun few => ?_⟩
      rw [ring, Circbuff.pops] at few
      omega

theorem Input.Stuck.step (stuck : view.Stuck resumed t buffer count) (many : 256 ≤ count)
    (order : InputOrder view resumed) (turn : Turn view event resumed)
    (step : InputStep view event after switched) (noRead : event.NoRead) :
    after.Stuck switched t buffer count := by
  by_cases own : view.caller = t
  · have loop := (stuck.looping.own turn step own).2
    have isResumed : resumed = some t := by
      refine stuck.looping.2.resolve_left fun first => turn.absent ?_
      exact own ▸ List.mem_of_head? first
    rw [← own]
    apply loop.stuck _ (by omega)
    by_contra few
    exact (stuck.waits (Nat.not_le.mp few)).2 isResumed
  · have looping := (stuck.looping.other order turn step own).2
    have notResumed : resumed ≠ some t := fun isResumed => own (turn.of_resumed isResumed).2
    have first : view.waiting.head? = some t := stuck.looping.2.resolve_right notResumed
    refine ⟨looping, fun few => ?_⟩
    cases step with
    | quiet _ _ _ ring waiting wanted undisturbed unread =>
        rw [ring] at few
        rw [wanted]
        exact ⟨(stuck.waits few).1, fun isSwitched => unread.not_loop isSwitched looping.1⟩
    | pushes llegit _ accepts reader rest isFirst incomplete ring waiting wanted =>
        have counter := order.ring.push_counter accepts.room (charOf llegit)
        rw [ring, counter] at few
        rw [wanted]
        exact ⟨(stuck.waits (by omega)).1, by simp⟩
    | wakes llegit _ accepts reader rest isFirst complete ring =>
        -- as many as were asked for, or a full ring: more than the loop sees
        have isReader : reader = t := by
          rw [isFirst, List.head?_cons] at first
          exact Option.some.inj first
        subst isReader
        have size : circbuffSize = 666 := rfl
        have counter := order.ring.push_counter accepts.room (charOf llegit)
        rw [ring, counter] at few
        have wants := (stuck.waits (by omega)).1
        rw [Input.Completes, counter, Circbuff.full_iff, counter, wants] at complete
        omega
    | calls fd buffer' count' i' _ _ accepted => exact absurd accepted (noRead _ _ _ _ rfl)
    | queues fd buffer' count' i' _ _ accepted => exact absurd accepted (noRead _ _ _ _ rfl)
    | reads buffer' count' i' _ _ top' =>
        have queued := (order.loop _ _ _ _ (turn.resumes rfl) top').2 t (List.mem_of_head? first)
        have top := stuck.looping.1
        rw [queued] at top
        cases top

end Protocol

/-! ## Storing in the block -/

section Block

variable {kernel : SequenceKernel} {buffer : Nat} {count i : Int}

theorem LoopOutcome.eax {outcome : SequenceKernel × Option Int}
    (loop : LoopOutcome kernel buffer count i outcome)
    (mode : (finishCall outcome).core.inKernel = false) :
    ((finishCall outcome).core.task kernel.core.current).context.eax = 0 := by
  cases loop with
  | finished taken core takes complete =>
      have current : core.current = kernel.core.current := by rw [takes.rest]
      rw [← current]
      simp [finishCall, mapCore]
  | waits taken core takes more drained =>
      simp [finishCall, parkFront] at mode

variable {machine : Machine} {before after : SequenceKernel}

theorem resume_succeeds (disciplined : Disciplined before)
    (top : before.top before.core.current = some (.sysReadLoop buffer count 0))
    {fd : Int} (accepted : ReadAccepted fd buffer count) (few : count ≤ 255)
    (mapped : before.core.mm.MapsBlock before.currentTask.dirPagesBaseAddr buffer count) :
    ∃ after, before.execute .resume = .ok after := by
  cases executed : before.execute .resume with
  | ok after => exact ⟨after, rfl⟩
  | error failure =>
      have strays := (resumeFrames_strays (disciplined.entered .resume) _).of_error executed
      rcases strays with ⟨buffer', count', i', top', position, -, inside, refused⟩
      have same : topFrame before.currentTask.kernelEsp = some (.sysReadLoop buffer' count' i') :=
        top'
      rw [show topFrame before.currentTask.kernelEsp = _ from top] at same
      cases same
      rw [Int.zero_add] at refused
      rcases refused with ⟨-, absent⟩ | ⟨-, ofKernel⟩
      · exact absurd (mapped position (by omega)) absent
      · rcases accepted with ⟨-, -, data, heap⟩
        have sizes := memoryMap
        have bounds := heapBounds
        unfold toUnsigned at ofKernel
        unfold toSigned at data heap
        simp only [sizes, bounds] at data heap ofKernel
        split at data <;> omega

theorem resume_eax (disciplined : Disciplined before)
    (step : (checkedZeos machine).step before .resume after)
    (top : before.top before.core.current = some (.sysReadLoop buffer count i))
    (mode : after.core.inKernel = false) :
    (after.core.task before.core.current).context.eax = 0 := by
  rcases step_effect disciplined step with ⟨core, entry, entered, notIdle, effect⟩
  have same : topFrame (Kernel.currentTask ⟨core, before.queues⟩).kernelEsp =
      some (.sysReadLoop buffer count i) := by
    rw [currentTask, entry.current, entry.task]
    exact top
  rw [← entry.current]
  cases effect with
  | resume outcome =>
      cases outcome with
      | idles top' =>
          cases top' _ same
      | interrupt frame top' kind =>
          rw [same] at top'
          cases top'
          rcases kind with kind | kind <;> cases kind
      | returns frame top' kind =>
          rw [same] at top'
          cases top'
          rcases kind with kind | kind | kind <;> cases kind
      | waited top' =>
          rw [same] at top'
          cases top'
      | reads buffer' count' i' top' outcome loop => exact loop.eax mode

end Block

/-! ## From the call on -/

section Runs

variable {machine : Machine} {first last : SequenceKernel} {history : List Recorded}
  {t : TaskId} {buffer pressed : Nat} {count result : Int}

theorem away_of_stuck {kernel : SequenceKernel} (attentive : Attentive kernel)
    (stuck : kernel.input.Stuck kernel.resumed t buffer count) : ¬kernel.UserMode t :=
  stuck.looping.away attentive

theorem typed_cons (transition : Recorded) (rest : List Recorded) :
    typed (transition :: rest) = transition.label.pressed ++ typed rest :=
  List.flatMap_cons

theorem idle_run (run : (checkedZeos machine).Run first history last) (attentive : Attentive first)
    (idle : first.input.Idle first.resumed)
    (noRead : ∀ transition ∈ history, transition.label.NoRead) :
    last.input.Idle last.resumed := by
  let Kept (kernel : SequenceKernel) : Prop :=
    Attentive kernel ∧ kernel.input.Idle kernel.resumed
  have initially : Kept first := ⟨attentive, idle⟩
  have kept : Kept last := run.invariant initially fun transition member step kept =>
    ⟨kept.1.step step, kept.2.step (kept.1.disciplined.turn step.1)
      (step_input kept.1.disciplined kept.1.suspended step) (noRead transition member)⟩
  exact kept.2

theorem reading_step {transition : Recorded} (attentive : Attentive transition.before)
    (step : (checkedZeos machine).step transition.before transition.label transition.after)
    (reading : transition.before.input.Reading transition.before.resumed t buffer count pressed)
    (few : count ≤ 255) (noRead : transition.label.NoRead) :
    Zeos.pushed transition = transition.label.pressed ∧
      ((transition.after.input.Reading transition.after.resumed t buffer count
          (pressed + transition.label.pressed.length) ∧ ¬transition.after.UserMode t ∧
          transition.before.resumed ≠ some t) ∨
        (transition.label.pressed = [] ∧ (pressed : Int) = count ∧
          transition.after.input.Idle transition.after.resumed ∧ transition.after.UserMode t ∧
          (transition.after.core.task t).context.eax = 0)) := by
  have turn := attentive.disciplined.turn step.1
  have inputStep := step_input attentive.disciplined attentive.suspended step
  rcases reading.step few attentive.order turn inputStep noRead with
    ⟨arrives, ⟨goesOn, notResumed⟩ | served⟩
  · exact ⟨arrives, .inl ⟨goesOn, goesOn.looping.away (attentive.step step), notResumed⟩⟩
  · rcases served with ⟨isResume, isResumed, idle, mode, caller, complete⟩
    have here : transition.after.UserMode t := userMode_of_returned mode caller
    refine ⟨arrives, .inr ⟨by rw [isResume]; rfl, complete, idle, here, ?_⟩⟩
    have isCaller : t = transition.before.core.current := (turn.of_resumed isResumed).2.symm
    have top := reading.looping.1
    rw [isResume] at step
    rw [isCaller] at top ⊢
    exact resume_eax attentive.disciplined step top here.2

theorem reading_run (run : (checkedZeos machine).Run first history last)
    (attentive : Attentive first)
    (reading : first.input.Reading first.resumed t buffer count pressed) (few : count ≤ 255)
    (noRead : ∀ transition ∈ history, transition.label.NoRead)
    (away : ∀ transition ∈ history, ¬transition.after.UserMode t) :
    last.input.Reading last.resumed t buffer count (pressed + (typed history).length) := by
  induction history generalizing first pressed with
  | nil =>
      rw [← run.of_nil]
      exact reading
  | cons transition rest induction =>
      rcases run.of_cons with ⟨same, step, later⟩
      subst same
      rcases reading_step attentive step reading few (noRead _ (by simp)) with
        ⟨-, ⟨goesOn, -⟩ | ⟨-, -, -, here, -⟩⟩
      · have whole := induction later (attentive.step step) goesOn
          (fun other member => noRead other (by simp [member]))
          (fun other member => away other (by simp [member]))
        rw [typed_cons, List.length_append, ← Nat.add_assoc]
        exact whole
      · exact absurd here (away _ (by simp))

theorem reading_returns (run : (checkedZeos machine).Run first history last)
    (attentive : Attentive first)
    (reading : first.input.Reading first.resumed t buffer count pressed) (few : count ≤ 255)
    (noRead : ∀ transition ∈ history, transition.label.NoRead)
    (returns : Returns t result history) :
    result = 0 ∧ pressed + (typed history).length = count ∧ last.input.Idle last.resumed ∧
      history.flatMap Zeos.pushed = typed history := by
  induction returns generalizing first pressed with
  | @returns transition here eax =>
      rcases run.of_cons with ⟨same, step, rest⟩
      subst same
      rcases reading_step attentive step reading few (noRead _ (by simp)) with
        ⟨arrives, ⟨-, away, -⟩ | ⟨nothing, complete, idle, -, zero⟩⟩
      · exact absurd here away
      · rw [rest.of_nil] at idle
        refine ⟨eax.symm.trans zero, ?_, idle, ?_⟩
        · simpa [typed, nothing] using complete
        · simp [typed, arrives]
  | @pends transition rest away later induction =>
      rcases run.of_cons with ⟨same, step, run'⟩
      subst same
      rcases reading_step attentive step reading few (noRead _ (by simp)) with
        ⟨arrives, ⟨goesOn, -⟩ | ⟨-, -, -, here, -⟩⟩
      · rcases induction run' (attentive.step step) goesOn
          (fun other member => noRead other (by simp [member])) with
          ⟨zero, complete, idle, arrived⟩
        refine ⟨zero, ?_, idle, ?_⟩
        · rw [typed_cons, List.length_append]
          omega
        · rw [List.flatMap_cons, arrived, arrives, typed_cons]
      · exact absurd here away

theorem serving_run (run : (checkedZeos machine).Run first history last)
    (attentive : Attentive first) (few : count ≤ 255)
    (serving : (∃ pressed, first.input.Reading first.resumed t buffer count pressed) ∨
      first.input.Idle first.resumed)
    (noRead : ∀ transition ∈ history, transition.label.NoRead) :
    (∃ pressed, last.input.Reading last.resumed t buffer count pressed) ∨
      last.input.Idle last.resumed := by
  induction history generalizing first with
  | nil =>
      rw [← run.of_nil]
      exact serving
  | cons transition rest induction =>
      rcases serving with ⟨pressed, reading⟩ | idle
      · rcases run.of_cons with ⟨same, step, later⟩
        subst same
        have noReadLater : ∀ other ∈ rest, other.label.NoRead :=
          fun other member => noRead other (by simp [member])
        rcases reading_step attentive step reading few (noRead _ (by simp)) with
          ⟨-, ⟨goesOn, -⟩ | ⟨-, -, idle, -⟩⟩
        · exact induction later (attentive.step step) (.inl ⟨_, goesOn⟩) noReadLater
        · exact .inr (idle_run later (attentive.step step) idle noReadLater)
      · exact .inr (idle_run run attentive idle noRead)

theorem stuck_run (run : (checkedZeos machine).Run first history last)
    (attentive : Attentive first)
    (stuck : first.input.Stuck first.resumed t buffer count) (many : 256 ≤ count)
    (noRead : ∀ transition ∈ history, transition.label.NoRead) :
    ¬Returns t result history := by
  intro returns
  induction returns generalizing first with
  | @returns transition here eax =>
      rcases run.of_cons with ⟨same, step, rest⟩
      subst same
      have stuck' := stuck.step many attentive.order (attentive.disciplined.turn step.1)
        (step_input attentive.disciplined attentive.suspended step) (noRead _ (by simp))
      exact away_of_stuck (attentive.step step) stuck' here
  | @pends transition rest away later induction =>
      rcases run.of_cons with ⟨same, step, run'⟩
      subst same
      have stuck' := stuck.step many attentive.order (attentive.disciplined.turn step.1)
        (step_input attentive.disciplined attentive.suspended step) (noRead _ (by simp))
      exact induction run' (attentive.step step) stuck'
        fun other member => noRead other (by simp [member])

theorem call_loops {call : Recorded} (attentive : Attentive call.before)
    (step : (checkedZeos machine).step call.before call.label call.after) {fd : Int}
    (isRead : call.label = .read fd buffer count 0) (accepted : ReadAccepted fd buffer count)
    (alone : call.before.input.waiting = []) :
    LoopStep (call.before.input.requesting count) buffer count 0 call.after.input
      call.after.resumed := by
  have inputStep := step_input attentive.disciplined attentive.suspended step
  rw [isRead] at inputStep
  generalize call.after.input = after at inputStep ⊢
  generalize call.after.resumed = switched at inputStep ⊢
  cases inputStep with
  | quiet _ _ _ ring waiting wanted undisturbed unread notLoop notRead =>
      exact absurd accepted (notRead _ _ _ _ rfl)
  | queues _ _ _ _ _ _ _ behind => exact absurd alone behind
  | calls _ _ _ _ _ _ _ _ loop => exact loop

theorem call_eax {call : Recorded} (disciplined : Disciplined call.before)
    (step : (checkedZeos machine).step call.before call.label call.after) {fd : Int}
    (isRead : call.label = .read fd buffer count 0) (accepted : ReadAccepted fd buffer count)
    (alone : call.before.input.waiting = []) (mode : call.after.core.inKernel = false) :
    (call.after.core.task call.before.core.current).context.eax = 0 := by
  rcases step_effect disciplined step with ⟨core, entry, entered, notIdle, effect⟩
  rw [isRead] at effect
  generalize call.after = after at effect mode
  rw [← entry.current]
  cases effect with
  | read _ _ _ _ outcome =>
      cases outcome with
      | refused error positive invalid => exact absurd accepted invalid
      | loops _ _ outcome loop => exact loop.eax mode
      | queued _ behind => exact absurd alone behind

theorem reading_call {call : Recorded} (attentive : Attentive call.before)
    (step : (checkedZeos machine).step call.before call.label call.after) {fd : Int}
    (isRead : call.label = .read fd buffer count 0) (accepted : ReadAccepted fd buffer count)
    (empty : call.before.core.circbuff.counter = 0) (alone : call.before.input.waiting = []) :
    (call.after.input.Reading call.after.resumed call.before.core.current buffer count 0 ∧
        call.after.resumed ≠ some call.before.core.current) ∨
      (count = 0 ∧ call.after.input.Idle call.after.resumed ∧
        call.after.UserMode call.before.core.current ∧
        (call.after.core.task call.before.core.current).context.eax = 0) := by
  have loop := call_loops attentive step isRead accepted alone
  have requested : (call.before.input.requesting count).wanted
      (call.before.input.requesting count).caller = count := Function.update_self ..
  have notNegative : 0 ≤ count := accepted.2.1
  by_cases none : count = 0
  · have complete : ((call.before.input.requesting count).ring.counter : Int) = count := by
      rw [none]
      exact congrArg _ empty
    rcases loop.serves alone complete (by omega) with ⟨idle, mode, caller⟩
    have here : call.after.UserMode call.before.core.current := userMode_of_returned mode caller
    exact .inr ⟨none, idle, here,
      call_eax attentive.disciplined step isRead accepted alone here.2⟩
  · exact .inl (loop.begins alone requested empty (by omega))

theorem call_returns {call : Recorded} (attentive : Attentive call.before)
    (run : (checkedZeos machine).Run call.before (call :: history) last) {fd : Int}
    (isRead : call.label = .read fd buffer count 0) (accepted : ReadAccepted fd buffer count)
    (few : count ≤ 255) (empty : call.before.core.circbuff.counter = 0)
    (alone : call.before.input.waiting = [])
    (noRead : ∀ transition ∈ history, transition.label.NoRead)
    (returns : Returns call.before.core.current result (call :: history)) :
    result = 0 ∧ (typed history).length = count ∧
      Stores call.before.core.current buffer (call :: history) (typed history) ∧
      last.input.Idle last.resumed := by
  rcases run.of_cons with ⟨-, step, later⟩
  have served : result = 0 ∧ (typed history).length = count ∧ last.input.Idle last.resumed ∧
      history.flatMap Zeos.pushed = typed history := by
    rcases reading_call attentive step isRead accepted empty alone with
      ⟨reading, -⟩ | ⟨nothing, idle, here, zero⟩
    · cases returns with
      | returns here => exact absurd here (reading.looping.away (attentive.step step))
      | pends _ returns' =>
          have served := reading_returns later (attentive.step step) reading few noRead returns'
          rwa [Int.natCast_zero, Int.zero_add] at served
    · cases returns with
      | pends away => exact absurd here away
      | returns _ eax =>
          rw [later.of_nil] at idle
          exact ⟨eax.symm.trans zero, nothing.symm, idle, rfl⟩
  rcases served with ⟨zero, length, idle, pushed⟩
  rcases calls_run attentive run (call_loops attentive step isRead accepted alone) returns with
    ⟨characters, -, stores, taken⟩
  have conserves := run_conserves run attentive
  have drained : last.core.circbuff.counter = 0 := idle.drained
  have unpushed : Zeos.pushed call = [] := by
    rw [Zeos.pushed, isRead]
    rfl
  rw [Circbuff.contents_empty empty, Circbuff.contents_empty drained, List.nil_append,
    List.append_nil, List.flatMap_cons, unpushed, List.nil_append, pushed, taken] at conserves
  rw [Int.add_zero, ← conserves] at stores
  exact ⟨zero, length, stores, idle⟩

theorem call_stuck {call : Recorded} (attentive : Attentive call.before)
    (run : (checkedZeos machine).Run call.before (call :: history) last) {fd : Int}
    (isRead : call.label = .read fd buffer count 0) (accepted : ReadAccepted fd buffer count)
    (many : 256 ≤ count) (empty : call.before.core.circbuff.counter = 0)
    (alone : call.before.input.waiting = [])
    (noRead : ∀ transition ∈ history, transition.label.NoRead) :
    ¬Returns call.before.core.current result (call :: history) := by
  rcases run.of_cons with ⟨-, step, later⟩
  have attentive' := attentive.step step
  rcases reading_call attentive step isRead accepted empty alone with
    ⟨reading, notResumed⟩ | ⟨nothing, -⟩
  · have stuck : call.after.input.Stuck call.after.resumed call.before.core.current buffer
        count := by
      refine ⟨reading.looping, fun _ => ⟨?_, notResumed⟩⟩
      cases reading with
      | blocked waiting top wanted => exact wanted
      | woken waiting isResumed => exact absurd isResumed notResumed
    intro returns
    cases returns with
    | returns here => exact away_of_stuck attentive' stuck here
    | pends _ returns' => exact stuck_run later attentive' stuck many noRead returns'
  · omega

theorem mode_of_resumed {kernel : SequenceKernel} (isResumed : kernel.resumed = some t) :
    kernel.core.inKernel = true ∧ kernel.core.current = t := by
  unfold resumed at isResumed
  split at isResumed
  · rename_i mode
    exact ⟨mode, Option.some.inj isResumed⟩
  · cases isResumed

end Runs

/-- How the read of `t` stands, and what the kernel `last` does about it, after the
steps `since` its call. -/
structure ReadServed (t : TaskId) (buffer : Nat) (count : Int) (since : List Recorded)
    (call : Recorded) (last : PointerKernel) : Prop where
  blocked : t ∈ last.toSequences.input.waiting →
    ∃ i, last.toSequences.top t = some (.sysReadLoop buffer count i) ∧
      i + last.core.keyboardReadersCount t = count ∧ 0 < last.core.keyboardReadersCount t
  /-- Before its return `t` waits for further key presses, or it has the processor
  in its loop after `count` of them and returns. -/
  pending : (∀ transition ∈ call :: since, ¬transition.after.UserMode t) →
    (t ∈ last.toSequences.input.waiting ∧ ((typed since).length : Int) < count) ∨
      (last.toSequences.resumed = some t ∧ ((typed since).length : Int) = count ∧
        ∃ after, last.execute .resume = .ok after ∧ after.toSequences.UserMode t ∧
          (after.core.task t).context.eax = 0)
  returned : ∀ result, Returns t result (call :: since) →
    result = 0 ∧ (typed since).length = count ∧ Stores t buffer (call :: since) (typed since) ∧
      last.core.circbuff.counter = 0 ∧ last.toSequences.input.waiting = []

/-- A single reader is served when it asks for at most 255 characters and its block is
mapped. For more it waits for ever. -/
theorem readServed {machine : Machine} {history : List (Transition PointerKernel Event)}
    {last : PointerKernel} (reaches : (zeos machine).Reaches history last)
    {earlier since : List Recorded} {call : Recorded}
    (recorded : record history = earlier ++ call :: since) {fd : Int} {buffer : Nat} {count : Int}
    (isRead : call.label = .read fd buffer count 0) (accepted : ReadAccepted fd buffer count)
    (empty : call.before.core.circbuff.counter = 0) (alone : call.before.input.waiting = [])
    (noRead : ∀ transition ∈ since, transition.label.NoRead) :
    (count ≤ 255 ∧ last.core.mm.MapsBlock
        (last.core.task call.before.core.current).dirPagesBaseAddr buffer count →
      ReadServed call.before.core.current buffer count since call last) ∧
    (256 ≤ count → ∀ result, ¬Returns call.before.core.current result (call :: since)) := by
  rcases run_toSequences reaches with ⟨mirrored, first, start, run⟩
  rw [show history.map _ = _ from recorded, init_eq start] at run
  rcases run.split with ⟨called, before, during⟩
  have attentive : Attentive called := attentive_of_run before (boot_attentive machine)
  rcases during.of_cons with ⟨same, step, later⟩
  subst same
  have attentive' := attentive.step step
  refine ⟨?_, fun many result =>
    call_stuck attentive during isRead accepted many empty alone noRead⟩
  rintro ⟨few, mapped⟩
  have reads := reading_call attentive step isRead accepted empty alone
  refine ⟨?_, ?_, ?_⟩
  · intro waits
    have serving := serving_run later attentive' few
      (reads.imp (fun reading => ⟨0, reading.1⟩) fun served => served.2.1) noRead
    rcases serving with ⟨pressed, reading⟩ | idle
    · cases reading with
      | blocked waiting top wanted missing =>
          have positive : 0 < last.toSequences.input.wanted call.before.core.current := by omega
          exact ⟨0, top, by rw [Int.zero_add]; exact wanted, positive⟩
      | woken waiting => simp [waiting] at waits
    · simp [idle.waiting] at waits
  · intro away
    rcases reads with ⟨reading, -⟩ | ⟨-, -, here, -⟩
    · have reading' := reading_run later attentive' reading few noRead
        fun transition member => away transition (List.mem_cons_of_mem _ member)
      rw [Nat.zero_add] at reading'
      rcases reading'.progress with waits | ⟨none, isResumed, complete⟩
      · exact .inl waits
      · refine .inr ⟨isResumed, complete, ?_⟩
        rcases mode_of_resumed isResumed with ⟨mode, current⟩
        have enabled : Event.Enabled .resume last.core := ⟨trivial, mode⟩
        have top := reading'.looping.1
        rw [← current] at top mapped
        rcases resume_succeeds mirrored.disciplined top accepted few mapped with ⟨next, executed⟩
        rcases mirrored.executes enabled executed with ⟨after, here, same⟩
        subst same
        have step' : (checkedZeos machine).step last.toSequences .resume after.toSequences :=
          ⟨enabled, executed⟩
        rcases @reading_step machine _ _ _ _ ⟨last.toSequences, .resume, after.toSequences⟩
          (attentive_of_run later attentive') step' reading' few (fun _ _ _ _ => Event.noConfusion)
          with ⟨-, ⟨-, -, notResumed⟩ | ⟨-, -, -, user, eax⟩⟩
        · exact absurd isResumed notResumed
        · exact ⟨after, here, user, eax⟩
    · exact absurd here (away call (by simp))
  · intro result returns
    rcases call_returns attentive during isRead accepted few empty alone noRead returns with
      ⟨zero, length, stores, idle⟩
    exact ⟨zero, length, stores, idle.drained, idle.waiting⟩

/-- A clone runs while the first task reads three characters. A key that is released
in between does not count. -/
def readThree : List Event :=
  [.clone 1048576 1081344, .read 0 1081344 3 0, .resume, .keyboard 30, .keyboard 158,
    .keyboard 48, .clock, .keyboard 46, .resume]

theorem readServed_three :
    ∃ history last earlier call since, (zeos Machine.sample).Reaches history last ∧
      record history = earlier ++ call :: since ∧ Returns 1 0 (call :: since) ∧
      (typed since).length = 3 ∧ ReadServed 1 1081344 3 since call last := by
  have computed : (replay readThree ⟨Machine.sample.bootCore 0 1, bootLinks⟩).any (fun run =>
      passesAt 1 (fun call since => call.label = .read 0 1081344 3 0 ∧
        call.before.core.current = 1 ∧ call.before.core.circbuff.counter = 0 ∧
        call.before.input.waiting = [] ∧ Returns 1 0 (call :: since) ∧ (typed since).length = 3 ∧
        since.map Transition.label = readThree.drop 2 ∧
        run.2.core.mm.MapsBlock (run.2.core.task 1).dirPagesBaseAddr 1081344 3)
      (record run.1)) = true := by
    decide +kernel
  rcases reaches_of_replay computed with ⟨history, last, reaches, found⟩
  rcases split_of_passesAt found with ⟨call, since, split, tested⟩
  rcases of_decide_eq_true tested with
    ⟨isRead, current, empty, alone, returns, length, labels, mapped⟩
  have noRead : ∀ transition ∈ since, transition.label.NoRead := by
    intro transition member fd buffer count i isRead
    have listed := List.mem_map_of_mem (f := Transition.label) member
    rw [labels, isRead] at listed
    simp [readThree] at listed
  have accepted : ReadAccepted 0 1081344 3 := by decide
  rw [← current] at mapped
  have reads := (readServed reaches split isRead accepted empty alone noRead).1
    ⟨by decide, mapped⟩
  rw [current] at reads
  exact ⟨history, last, _, call, since, reaches, split, returns, length, reads⟩

def readTooMany : List Event :=
  [.read 0 1081344 256 0, .resume] ++ List.replicate 256 (.keyboard 30) ++ [.resume, .resume]

set_option maxRecDepth 4096 in
theorem readServed_tooMany :
    ∃ history last earlier call since, (zeos Machine.sample).Reaches history last ∧
      record history = earlier ++ call :: since ∧ call.label = .read 0 1081344 256 0 ∧
      call.before.core.current = 1 ∧ call.before.core.circbuff.counter = 0 ∧
      call.before.input.waiting = [] ∧ (∀ transition ∈ since, transition.label.NoRead) ∧
      last.core.mm.MapsBlock (last.core.task 1).dirPagesBaseAddr 1081344 256 ∧
      (typed since).length = 256 ∧ ¬ReadServed 1 1081344 256 since call last := by
  have computed : (replay readTooMany ⟨Machine.sample.bootCore 0 1, bootLinks⟩).any (fun run =>
      passesAt 0 (fun call since => call.label = .read 0 1081344 256 0 ∧
        call.before.core.current = 1 ∧ call.before.core.circbuff.counter = 0 ∧
        call.before.input.waiting = [] ∧ (typed since).length = 256 ∧
        since.map Transition.label = readTooMany.drop 1 ∧
        run.2.core.mm.MapsBlock (run.2.core.task 1).dirPagesBaseAddr 1081344 256 ∧
        run.2.toSequences.input.waiting = [1] ∧ run.2.core.keyboardReadersCount 1 = 0)
      (record run.1)) = true := by
    decide +kernel
  rcases reaches_of_replay computed with ⟨history, last, reaches, found⟩
  rcases split_of_passesAt found with ⟨call, since, split, tested⟩
  rcases of_decide_eq_true tested with
    ⟨isRead, current, empty, alone, length, labels, mapped, waiting, nothing⟩
  refine ⟨history, last, _, call, since, reaches, split, isRead, current, empty, alone, ?_, mapped,
    length, ?_⟩
  · intro transition member fd buffer count i isRead
    have listed := List.mem_map_of_mem (f := Transition.label) member
    rw [labels, isRead] at listed
    simp [readTooMany] at listed
  · intro served
    rcases served.blocked (by rw [waiting, List.mem_singleton]) with ⟨i, -, -, positive⟩
    rw [nothing] at positive
    exact absurd positive (Int.lt_irrefl 0)

end Zeos
