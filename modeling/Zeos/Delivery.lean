import Zeos.Requests

/-! # Delivery

Which characters a read takes from the ring and where it puts them, over the whole
interval from the call to its return.
-/

namespace Zeos

open Foundation Kernel

def Input.takes (view after : Input) : List UInt8 :=
  view.ring.oldest (view.ring.counter - after.ring.counter)

instance (view : Input) (llegit : UInt8) : Decidable (view.Accepts llegit) :=
  inferInstanceAs (Decidable (_ ∧ _))

def Input.arrives (view : Input) : Event → List UInt8
  | .keyboard llegit => if view.Accepts llegit then [charOf llegit] else []
  | _ => []

def taken (transition : Recorded) : List UInt8 :=
  transition.before.input.takes transition.after.input

def pushed (transition : Recorded) : List UInt8 :=
  transition.before.input.arrives transition.label

/-- What the reader `t` itself takes. -/
def takenBy (t : TaskId) (history : List Recorded) : List UInt8 :=
  (history.filter fun transition => transition.before.core.current = t).flatMap taken

/-- `t` stores `characters` from `address` on, in pieces of which each starts where
the last one ended. -/
inductive Stores (t : TaskId) : Int → List Recorded → List UInt8 → Prop
  | nil (address : Int) : Stores t address [] []
  | other {address : Int} {transition : Recorded} {rest : List Recorded} {characters : List UInt8}
      (other : transition.before.core.current ≠ t) (later : Stores t address rest characters) :
      Stores t address (transition :: rest) characters
  | piece {address : Int} {transition : Recorded} {rest : List Recorded} {characters : List UInt8}
      (own : transition.before.core.current = t)
      (stored : taken transition ≠ [] → transition.before.core.mm.storeBytes
        transition.before.currentTask.dirPagesBaseAddr (toUnsigned address) (taken transition) =
          .ok transition.after.core.mm)
      (later : Stores t (address + (taken transition).length) rest characters) :
      Stores t address (transition :: rest) (taken transition ++ characters)

/-- The call delivers what it reports: `count` characters in the buffer, which are
consecutive among those pushed and come after those taken by others before. -/
def Delivered (t : TaskId) (buffer : Nat) (count : Int) (earlier interval : List Recorded) : Prop :=
  ∃ characters : List UInt8, characters.length = count ∧ Stores t buffer interval characters ∧
    ∃ later, (earlier ++ interval).flatMap pushed = earlier.flatMap taken ++ characters ++ later

/-! ## What goes in comes out -/

section Protocol

variable {view after : Input} {event : Event} {resumed switched : Option TaskId}

theorem takes_of_ring (ring : after.ring = view.ring) : view.takes after = [] := by
  unfold Input.takes
  rw [ring, Nat.sub_self]
  rfl

theorem takes_of_push (order : InputOrder view resumed) {llegit : UInt8}
    (accepts : view.Accepts llegit) (ring : after.ring = view.ring.push (charOf llegit)) :
    view.takes after = [] := by
  have counter := order.ring.push_counter accepts.room (charOf llegit)
  unfold Input.takes
  rw [ring, counter, Nat.sub_eq_zero_of_le (Nat.le_succ _)]
  rfl

theorem takes_of_pops {count : Nat} (sees : count ≤ view.ring.visible)
    (ring : after.ring = view.ring.pops count) : view.takes after = view.ring.oldest count := by
  have enough := sees.trans Circbuff.visible_le
  unfold Input.takes
  rw [ring, Circbuff.pops_counter enough, Nat.sub_sub_self enough]

theorem LoopStep.conserves {buffer : Nat} {count i : Int}
    (loop : LoopStep view buffer count i after switched) :
    view.ring.contents = view.takes after ++ after.ring.contents := by
  cases loop with
  | finished taken stored oldest enough complete popped =>
      rw [takes_of_pops enough popped, popped]
      exact Circbuff.contents_pops (enough.trans Circbuff.visible_le)
  | waits _ taken stored oldest enough more drained popped =>
      rw [takes_of_pops enough popped, popped]
      exact Circbuff.contents_pops (enough.trans Circbuff.visible_le)

theorem InputStep.conserves (order : InputOrder view resumed)
    (step : InputStep view event after switched) :
    view.ring.contents ++ view.arrives event = view.takes after ++ after.ring.contents := by
  have arrived : ∀ {llegit}, view.Accepts llegit → after.ring = view.ring.push (charOf llegit) →
      view.ring.contents ++ view.arrives (.keyboard llegit) =
        view.takes after ++ after.ring.contents := by
    intro llegit accepts ring
    have new : view.arrives (.keyboard llegit) = [charOf llegit] := if_pos accepts
    rw [takes_of_push order accepts ring, ring, (order.ring.push accepts.room _).2, new,
      List.nil_append]
  cases step with
  | quiet _ _ _ ring waiting wanted undisturbed unread notLoop notRead notKey =>
      have nothing : view.arrives event = [] := by
        unfold Input.arrives
        split
        · exact if_neg (notKey _ rfl)
        · rfl
      rw [nothing, takes_of_ring ring, ring, List.append_nil, List.nil_append]
  | pushes llegit _ accepts reader rest first incomplete ring => exact arrived accepts ring
  | wakes llegit _ accepts reader rest first complete ring => exact arrived accepts ring
  | calls fd buffer count i _ _ accepted alone loop =>
      exact (List.append_nil _).trans loop.conserves
  | queues fd buffer count i _ _ accepted behind ring =>
      rw [takes_of_ring ring, ring]
      exact List.append_nil _
  | reads buffer count i _ _ top loop =>
      exact (List.append_nil _).trans loop.conserves

/-! ## A reader inside its loop -/

/-- `t` is in the loop at position `i`, and is the first to go on. -/
def Input.Looping (view : Input) (resumed : Option TaskId) (t : TaskId) (buffer : Nat)
    (count i : Int) : Prop :=
  view.top t = some (.sysReadLoop buffer count i) ∧
    (view.waiting.head? = some t ∨ resumed = some t)

theorem LoopStep.outcome {buffer : Nat} {count i : Int}
    (loop : LoopStep view buffer count i after switched) :
    view.mm.storeBytes view.pt (toUnsigned (buffer + i)) (view.takes after) = .ok after.mm ∧
      ((i + (view.takes after).length = count ∨ view.takes after = [] ∧ count ≤ i) ∧
          switched = none ∧ after.caller = view.caller ∨
        after.Looping switched view.caller buffer count (i + (view.takes after).length)) := by
  cases loop with
  | finished taken stored oldest enough complete popped waiting wanted undisturbed caller =>
      rw [takes_of_pops enough popped, ← oldest]
      exact ⟨stored, .inl ⟨complete, rfl, caller⟩⟩
  | waits _ taken stored oldest enough more drained popped waiting wanted undisturbed top =>
      rw [takes_of_pops enough popped, ← oldest]
      exact ⟨stored, .inr ⟨top, .inl (by rw [waiting, List.head?_cons])⟩⟩

theorem Input.Looping.other {t : TaskId} {buffer : Nat} {count i : Int}
    (looping : view.Looping resumed t buffer count i) (order : InputOrder view resumed)
    (turn : Turn view event resumed) (step : InputStep view event after switched)
    (other : view.caller ≠ t) :
    view.takes after = [] ∧ after.Looping switched t buffer count i := by
  rcases looping with ⟨top, place⟩
  have first : view.waiting.head? = some t := by
    refine place.resolve_right fun isResumed => ?_
    exact other (turn.of_resumed isResumed).2
  have member := List.mem_of_head? first
  cases step with
  | quiet _ _ _ ring waiting wanted undisturbed =>
      refine ⟨takes_of_ring ring, (undisturbed t member).trans top, .inl ?_⟩
      rw [waiting, first]
  | pushes llegit _ accepts reader rest isFirst incomplete ring waiting wanted undisturbed =>
      refine ⟨takes_of_push order accepts ring, (undisturbed t member).trans top, .inl ?_⟩
      rw [waiting, first]
  | wakes llegit _ accepts reader rest isFirst complete ring waiting wanted undisturbed =>
      refine ⟨takes_of_push order accepts ring, (undisturbed t member).trans top, .inr ?_⟩
      rw [isFirst, List.head?_cons] at first
      exact first
  | calls fd buffer' count' i' _ _ accepted alone =>
      simp [alone] at first
  | queues fd buffer' count' i' _ _ accepted behind ring waiting wanted undisturbed =>
      refine ⟨takes_of_ring ring, (undisturbed t member).trans top, .inl ?_⟩
      rw [waiting, List.head?_append_of_ne_nil _ behind, first]
  | reads buffer' count' i' _ _ top' =>
      -- the others would be queued
      have queued := (order.loop _ _ _ _ (turn.resumes rfl) top').2 t member
      rw [queued] at top
      cases top

theorem Input.Looping.own {t : TaskId} {buffer : Nat} {count i : Int}
    (looping : view.Looping resumed t buffer count i) (turn : Turn view event resumed)
    (step : InputStep view event after switched) (own : view.caller = t) :
    event = .resume ∧ LoopStep view buffer count i after switched := by
  subst own
  rcases looping with ⟨top, place⟩
  have isResumed : resumed = some view.caller := by
    refine place.resolve_left fun first => turn.absent (List.mem_of_head? first)
  have isResume := (turn.of_resumed isResumed).1
  refine ⟨isResume, ?_⟩
  cases step with
  | quiet _ _ _ ring waiting wanted undisturbed unread notLoop =>
      exact absurd top (notLoop isResume buffer count i)
  | pushes => cases isResume
  | wakes => cases isResume
  | calls => cases isResume
  | queues => cases isResume
  | reads buffer' count' i' _ _ top' loop =>
      rw [top] at top'
      cases top'
      exact loop

/-! ## A reader behind another one -/

def Input.Queued (view : Input) (resumed : Option TaskId) (t : TaskId) : Prop :=
  view.top t = some .sysReadQueued ∧ (t ∈ view.waiting ∨ resumed = some t)

theorem Input.Queued.other {t : TaskId} (queued : view.Queued resumed t)
    (turn : Turn view event resumed) (step : InputStep view event after switched)
    (other : view.caller ≠ t) : after.Queued switched t := by
  rcases queued with ⟨top, place⟩
  have member : t ∈ view.waiting := by
    refine place.resolve_right fun isResumed => ?_
    exact other (turn.of_resumed isResumed).2
  cases step with
  | quiet _ _ _ ring waiting wanted undisturbed =>
      exact ⟨(undisturbed t member).trans top, .inl (by rwa [waiting])⟩
  | pushes llegit _ accepts reader rest first incomplete ring waiting wanted undisturbed =>
      exact ⟨(undisturbed t member).trans top, .inl (by rwa [waiting])⟩
  | wakes llegit _ accepts reader rest first complete ring waiting wanted undisturbed =>
      refine ⟨(undisturbed t member).trans top, ?_⟩
      rw [first, List.mem_cons] at member
      rcases member with isReader | behind
      · exact .inr (congrArg some isReader.symm)
      · exact .inl (by rwa [waiting])
  | calls fd buffer count i _ _ accepted alone =>
      simp [alone] at member
  | queues fd buffer count i _ _ accepted behind ring waiting wanted undisturbed =>
      exact ⟨(undisturbed t member).trans top, .inl (by rw [waiting]; simp [member])⟩
  | reads buffer count i _ _ top' loop =>
      cases loop with
      | finished taken stored oldest enough complete popped waiting wanted undisturbed =>
          exact ⟨(undisturbed t member).trans top, .inl (by rwa [waiting])⟩
      | waits _ taken stored oldest enough more drained popped waiting wanted undisturbed =>
          exact ⟨(undisturbed t member).trans top, .inl (by rw [waiting]; simp [member])⟩

theorem Input.Queued.own {t : TaskId} (queued : view.Queued resumed t)
    (turn : Turn view event resumed) (step : InputStep view event after switched)
    (own : view.caller = t) :
    view.takes after = [] ∧ switched = none ∧ after.caller = view.caller := by
  subst own
  rcases queued with ⟨top, place⟩
  have isResumed : resumed = some view.caller := place.resolve_left turn.absent
  have isResume := (turn.of_resumed isResumed).1
  cases step with
  | quiet _ _ _ ring waiting wanted undisturbed unread notLoop notRead notKey returns =>
      exact ⟨takes_of_ring ring, returns isResume⟩
  | pushes => cases isResume
  | wakes => cases isResume
  | calls => cases isResume
  | queues => cases isResume
  | reads buffer count i _ _ top' =>
      rw [top] at top'
      cases top'

end Protocol

/-! ## From the call to the return -/

section Runs

variable {machine : Machine} {first last : SequenceKernel} {history : List Recorded}
  {t : TaskId} {address : Int} {characters : List UInt8}

theorem attentive_of_run (run : (checkedZeos machine).Run first history last)
    (attentive : Attentive first) : Attentive last :=
  run.invariant attentive fun _ _ step attentive => attentive.step step

theorem run_conserves (run : (checkedZeos machine).Run first history last)
    (attentive : Attentive first) :
    first.core.circbuff.contents ++ history.flatMap pushed =
      history.flatMap taken ++ last.core.circbuff.contents := by
  induction run with
  | nil => simp
  | snoc earlier step induction =>
      have before := attentive_of_run earlier attentive
      have conserves := (step_input before.disciplined before.suspended step).conserves before.order
      simp only [List.flatMap_append, List.flatMap_cons, List.flatMap_nil, List.append_nil]
      rw [← List.append_assoc, induction, List.append_assoc, List.append_assoc]
      exact congrArg _ conserves

theorem Stores.takenBy (stores : Stores t address history characters) :
    characters = Zeos.takenBy t history := by
  induction stores with
  | nil => rfl
  | other other later induction => simpa [Zeos.takenBy, other] using induction
  | piece own stored later induction => simp [Zeos.takenBy, own, induction]

theorem stores_nothing (nothing : takenBy t history = []) (address : Int) :
    Stores t address history [] := by
  induction history generalizing address with
  | nil => exact .nil address
  | cons transition rest induction =>
      by_cases own : transition.before.core.current = t
      · have parts : taken transition = [] ∧ takenBy t rest = [] := by
          simpa [takenBy, own] using nothing
        have piece := @Stores.piece t address transition rest [] own
          (fun some => absurd parts.1 some) (induction parts.2 _)
        rwa [parts.1] at piece
      · apply Stores.other own
        apply induction
        simpa [takenBy, own] using nothing

theorem userMode_of_returned {kernel : SequenceKernel} (mode : kernel.resumed = none)
    (current : kernel.input.caller = t) : kernel.UserMode t := by
  refine ⟨current, ?_⟩
  apply Bool.eq_false_iff.mpr
  intro inKernel
  rw [resumed, if_pos inKernel] at mode
  cases mode

theorem away_of_place {kernel : SequenceKernel} (attentive : Attentive kernel)
    (place : t ∈ kernel.input.waiting ∨ kernel.resumed = some t) : ¬kernel.UserMode t := by
  rintro ⟨current, mode⟩
  rcases place with waits | isResumed
  · exact attentive.disciplined.currentUnlinked ⟨_, current ▸ waits⟩
  · rw [resumed, if_neg (by simp [mode])] at isResumed
    cases isResumed

theorem Input.Looping.away {kernel : SequenceKernel} (attentive : Attentive kernel) {buffer : Nat}
    {count i : Int} (looping : kernel.input.Looping kernel.resumed t buffer count i) :
    ¬kernel.UserMode t :=
  away_of_place attentive (looping.2.imp_left List.mem_of_head?)

theorem looping_run {buffer : Nat} {count i result : Int}
    (run : (checkedZeos machine).Run first history last) (attentive : Attentive first)
    (looping : first.input.Looping first.resumed t buffer count i)
    (returns : Returns t result history) :
    ∃ characters : List UInt8, i + characters.length = count ∧
      Stores t (buffer + i) history characters ∧ history.flatMap taken = characters := by
  induction returns generalizing first i with
  | @returns transition here eax =>
      rcases run.of_cons with ⟨same, step, -⟩
      subst same
      have turn := attentive.disciplined.turn step.1
      have inputStep := step_input attentive.disciplined attentive.suspended step
      by_cases own : transition.before.core.current = t
      · rcases looping.own turn inputStep own with ⟨isResume, loop⟩
        rcases loop.outcome with ⟨stored, ⟨complete, -⟩ | again⟩
        · have wants := (attentive.order.loop _ _ _ _ (turn.resumes isResume)
            (own.symm ▸ looping.1)).1
          have exactly : i + (taken transition).length = count :=
            complete.resolve_right fun none => absurd wants (Int.not_lt.mpr none.2)
          refine ⟨taken transition, exactly, ?_, by simp⟩
          have piece := Stores.piece own (fun _ => stored) (.nil (buffer + i +
            (taken transition).length))
          rwa [List.append_nil] at piece
        · rw [show transition.before.input.caller = t from own] at again
          exact absurd here (again.away (attentive.step step))
      · have still := (looping.other attentive.order turn inputStep own).2
        exact absurd here (still.away (attentive.step step))
  | @pends transition rest away later induction =>
      rcases run.of_cons with ⟨same, step, rest'⟩
      subst same
      have turn := attentive.disciplined.turn step.1
      have inputStep := step_input attentive.disciplined attentive.suspended step
      by_cases own : transition.before.core.current = t
      · rcases looping.own turn inputStep own with ⟨isResume, loop⟩
        rcases loop.outcome with ⟨stored, ⟨-, mode, caller⟩ | again⟩
        · exact absurd (userMode_of_returned mode (caller.trans own)) away
        · rw [show transition.before.input.caller = t from own] at again
          rcases induction rest' (attentive.step step) again with
            ⟨characters, exactly, stores, all⟩
          refine ⟨taken transition ++ characters, ?_, ?_, ?_⟩
          · rw [List.length_append, Int.natCast_add, ← Int.add_assoc]
            exact exactly
          · apply Stores.piece own (fun _ => stored)
            rw [Int.add_assoc]
            exact stores
          · rw [List.flatMap_cons, all]
      · rcases looping.other attentive.order turn inputStep own with ⟨nothing, still⟩
        rcases induction rest' (attentive.step step) still with ⟨characters, exactly, stores, all⟩
        refine ⟨characters, exactly, .other own stores, ?_⟩
        rw [List.flatMap_cons, all, show taken transition = [] from nothing, List.nil_append]

theorem queued_run {result : Int} (run : (checkedZeos machine).Run first history last)
    (attentive : Attentive first) (queued : first.input.Queued first.resumed t)
    (returns : Returns t result history) : takenBy t history = [] := by
  induction returns generalizing first with
  | @returns transition here eax =>
      rcases run.of_cons with ⟨same, step, -⟩
      subst same
      have turn := attentive.disciplined.turn step.1
      have inputStep := step_input attentive.disciplined attentive.suspended step
      by_cases own : transition.before.core.current = t
      · have nothing : taken transition = [] := (queued.own turn inputStep own).1
        simp [takenBy, own, nothing]
      · simp [takenBy, own]
  | @pends transition rest away later induction =>
      rcases run.of_cons with ⟨same, step, rest'⟩
      subst same
      have turn := attentive.disciplined.turn step.1
      have inputStep := step_input attentive.disciplined attentive.suspended step
      by_cases own : transition.before.core.current = t
      · rcases queued.own turn inputStep own with ⟨-, mode, caller⟩
        exact absurd (userMode_of_returned mode (caller.trans own)) away
      · have still := queued.other turn inputStep own
        simpa [takenBy, own] using induction rest' (attentive.step step) still

theorem accepted_of_returns {transition : Recorded} {rest : List Recorded} {fd : Int}
    {buffer : Nat} {count i : Int} (isRead : transition.label = .read fd buffer count i)
    (disciplined : Disciplined transition.before)
    (step : (checkedZeos machine).step transition.before transition.label transition.after)
    (returns : Returns transition.before.core.current 0 (transition :: rest)) :
    ReadAccepted fd buffer count := by
  rcases step_effect disciplined step with ⟨core, entry, entered, notIdle, effect⟩
  rw [isRead] at effect
  generalize result : transition.after = after at effect
  cases effect with
  | read _ _ _ _ call =>
      cases call with
      | loops accepted => exact accepted
      | queued accepted => exact accepted
      | refused error positive invalid =>
          have here : transition.after.UserMode transition.before.core.current := by
            rw [result]
            exact ⟨by simp [finishCall, mapCore, entry.current], by simp [finishCall, mapCore]⟩
          cases returns with
          | returns _ eax =>
              rw [result] at eax
              simp [finishCall, mapCore, entry.current] at eax
              omega
          | pends away => exact absurd here away

theorem calls_run {transition : Recorded} {buffer : Nat} {count i result : Int}
    (attentive : Attentive transition.before)
    (run : (checkedZeos machine).Run transition.before (transition :: history) last)
    (loop : LoopStep (transition.before.input.requesting count) buffer count i
      transition.after.input transition.after.resumed)
    (returns : Returns transition.before.core.current result (transition :: history)) :
    ∃ characters : List UInt8, (i + characters.length = count ∨ characters = [] ∧ count ≤ i) ∧
      Stores transition.before.core.current (buffer + i) (transition :: history) characters ∧
      (transition :: history).flatMap taken = characters := by
  rcases run.of_cons with ⟨-, step, rest⟩
  rcases loop.outcome with ⟨stored, ⟨complete, mode, caller⟩ | again⟩
  · have here := userMode_of_returned mode caller
    cases returns with
    | pends away => exact absurd here away
    | returns _ eax =>
        refine ⟨taken transition, complete, ?_, by simp⟩
        have piece := Stores.piece rfl (fun _ => stored) (.nil (buffer + i +
          (taken transition).length))
        rwa [List.append_nil] at piece
  · cases returns with
    | returns here => exact absurd here (again.away (attentive.step step))
    | pends away later =>
        rcases looping_run rest (attentive.step step) again later with
          ⟨characters, exactly, stores, all⟩
        refine ⟨taken transition ++ characters, .inl ?_, ?_, ?_⟩
        · rw [List.length_append, Int.natCast_add, ← Int.add_assoc]
          exact exactly
        · apply Stores.piece rfl (fun _ => stored)
          rw [Int.add_assoc]
          exact stores
        · rw [List.flatMap_cons, all]

theorem queues_run {transition : Recorded} {result : Int} (attentive : Attentive transition.before)
    (run : (checkedZeos machine).Run transition.before (transition :: history) last)
    (ring : transition.after.input.ring = transition.before.input.ring)
    (queued : transition.after.input.Queued transition.after.resumed
      transition.before.core.current)
    (returns : Returns transition.before.core.current result (transition :: history)) :
    takenBy transition.before.core.current (transition :: history) = [] := by
  rcases run.of_cons with ⟨-, step, rest⟩
  have nothing : taken transition = [] := takes_of_ring ring
  cases returns with
  | returns here => exact absurd here (away_of_place (attentive.step step) queued.2)
  | pends away later =>
      have nothingLater := queued_run rest (attentive.step step) queued later
      simpa [takenBy, nothing] using nothingLater

/-- The read begins at the beginning, and finds nobody waiting. -/
def Input.Deliverable (view : Input) (count i : Int) : Prop :=
  if view.waiting = [] then i = 0 ∨ count = 0 ∧ 0 ≤ i else count = 0

theorem delivered_iff {call : Recorded} {earlier : List Recorded} {left : List UInt8} {fd : Int}
    {buffer : Nat} {count i : Int} (attentive : Attentive call.before)
    (run : (checkedZeos machine).Run call.before (call :: history) last)
    (isRead : call.label = .read fd buffer count i)
    (returns : Returns call.before.core.current 0 (call :: history))
    (whole : (earlier ++ (call :: history)).flatMap pushed =
      (earlier ++ (call :: history)).flatMap taken ++ left) :
    Delivered call.before.core.current buffer count earlier (call :: history) ↔
      call.before.input.Deliverable count i := by
  rcases run.of_cons with ⟨-, step, -⟩
  have accepted := accepted_of_returns isRead attentive.disciplined step returns
  have inputStep := step_input attentive.disciplined attentive.suspended step
  rw [isRead] at inputStep
  unfold Input.Deliverable
  generalize result : call.after.input = after at inputStep
  generalize isSwitched : call.after.resumed = switched at inputStep
  cases inputStep with
  | quiet _ _ _ ring waiting wanted undisturbed unread notLoop notRead =>
      exact absurd accepted (notRead _ _ _ _ rfl)
  | calls _ _ _ _ _ _ _ alone loop =>
      subst result isSwitched
      rw [if_pos alone]
      rcases calls_run attentive run loop returns with ⟨characters, total, stores, all⟩
      constructor
      · rintro ⟨delivered, length, stores', -⟩
        rw [stores'.takenBy, ← stores.takenBy] at length
        rcases total with exactly | ⟨nothing, less⟩
        · omega
        · rw [nothing, List.length_nil] at length
          omega
      · intro fine
        have length : characters.length = count := by
          rcases total with exactly | ⟨nothing, less⟩
          · omega
          · have notNegative : 0 ≤ count := accepted.2.1
            rw [nothing, List.length_nil]
            omega
        refine ⟨characters, length, ?_, left, ?_⟩
        · rcases fine with fromStart | ⟨none, -⟩
          · rwa [fromStart, Int.add_zero] at stores
          · have nothing : characters = [] := by
              apply List.eq_nil_of_length_eq_zero
              omega
            rw [nothing]
            exact stores_nothing (stores.takenBy.symm.trans nothing) _
        · rw [whole, List.flatMap_append, all]
  | queues _ _ _ _ _ _ _ behind ring waiting wanted undisturbed top =>
      subst result isSwitched
      rw [if_neg behind]
      have member : call.before.core.current ∈ call.after.input.waiting := by
        rw [waiting]
        exact List.mem_append_right _ (List.mem_singleton_self _)
      have nothing := queues_run attentive run ring ⟨top, .inl member⟩ returns
      constructor
      · rintro ⟨delivered, length, stores, -⟩
        rw [stores.takenBy, nothing] at length
        exact length.symm
      · intro isZero
        refine ⟨[], isZero.symm, stores_nothing nothing _,
          (call :: history).flatMap taken ++ left, ?_⟩
        rw [whole, List.flatMap_append, List.append_nil, List.append_assoc]

end Runs

/-- A read that returns 0 has delivered what it reports when it found nobody
waiting and began at the beginning, or was asked for nothing. No character is
ever delivered twice. -/
theorem readsDeliver {machine : Machine} {history : List (Transition PointerKernel Event)}
    {last : PointerKernel} (reaches : (zeos machine).Reaches history last)
    {earlier rest later : List Recorded} {call : Recorded}
    (recorded : record history = earlier ++ (call :: rest) ++ later)
    {fd : Int} {buffer : Nat} {count i : Int} (isRead : call.label = .read fd buffer count i)
    (returns : Returns call.before.core.current 0 (call :: rest)) :
    (Delivered call.before.core.current buffer count earlier (call :: rest) ↔
        call.before.input.Deliverable count i) ∧
      (record history).flatMap pushed =
        (record history).flatMap taken ++ last.core.circbuff.contents := by
  rcases (run_toSequences reaches).2 with ⟨first, start, run⟩
  rw [show history.map _ = _ from recorded] at run
  rw [init_eq start] at run
  have booted := boot_attentive machine
  have empty : (machine.bootCore 0 1).circbuff.contents = [] := by
    rw [bootCore_input]
    rfl
  have conserves : ∀ {steps reached},
      (checkedZeos machine).Run ⟨machine.bootCore 0 1, bootSequences⟩ steps reached →
      steps.flatMap pushed = steps.flatMap taken ++ reached.core.circbuff.contents := by
    intro steps reached run
    have conserves := run_conserves run booted
    rwa [empty, List.nil_append] at conserves
  refine ⟨?_, ?_⟩
  · rcases run.split with ⟨returned, interval, -⟩
    have whole := conserves interval
    rcases interval.split with ⟨called, before, during⟩
    rcases during.of_cons with ⟨same, -, -⟩
    subst same
    exact delivered_iff (attentive_of_run before booted) during isRead returns whole
  · rw [recorded]
    exact conserves run

theorem readsDeliver_one :
    ∃ history last earlier call rest, (zeos Machine.sample).Reaches history last ∧
      record history = earlier ++ (call :: rest) ++ [] ∧ call.label = .read 0 1081344 1 0 ∧
      Returns 1 0 (call :: rest) ∧ Delivered 1 1081344 1 earlier (call :: rest) := by
  have computed : (replay readOne ⟨Machine.sample.bootCore 0 1, bootLinks⟩).any (fun run =>
      passesAt 1 (fun call rest => call.label = .read 0 1081344 1 0 ∧
        call.before.core.current = 1 ∧ Returns 1 0 (call :: rest) ∧ call.before.input.waiting = [])
          (record run.1)) = true := by
    decide +kernel
  rcases reaches_of_replay computed with ⟨history, last, reaches, found⟩
  rcases split_of_passesAt found with ⟨call, rest, split, tested⟩
  rcases of_decide_eq_true tested with ⟨isRead, current, returns, alone⟩
  have parts := split.trans (List.append_nil _).symm
  refine ⟨history, last, _, call, rest, reaches, parts, isRead, returns, ?_⟩
  have returned := returns
  rw [← current] at returned ⊢
  apply (readsDeliver reaches parts isRead returned).1.mpr
  rw [Input.Deliverable, if_pos alone]
  exact .inl rfl

def readBoth : List Event :=
  [.clone 1048576 1081344, .read 0 1081344 1 0, .resume, .read 0 1081344 1 0, .resume,
    .keyboard 30, .resume, .keyboard 30, .resume]

theorem readsDeliver_nothing :
    ∃ history last earlier call rest, (zeos Machine.sample).Reaches history last ∧
      record history = earlier ++ (call :: rest) ++ [] ∧ call.label = .read 0 1081344 1 0 ∧
      Returns 2 0 (call :: rest) ∧ takenBy 2 (call :: rest) = [] ∧
      ¬Delivered 2 1081344 1 earlier (call :: rest) := by
  have computed : (replay readBoth ⟨Machine.sample.bootCore 0 1, bootLinks⟩).any (fun run =>
      passesAt 3 (fun call rest => call.label = .read 0 1081344 1 0 ∧
        Returns 2 0 (call :: rest) ∧ takenBy 2 (call :: rest) = []) (record run.1)) = true := by
    decide +kernel
  rcases reaches_of_replay computed with ⟨history, last, reaches, found⟩
  rcases split_of_passesAt found with ⟨call, rest, split, tested⟩
  rcases of_decide_eq_true tested with ⟨isRead, returns, nothing⟩
  have parts := split.trans (List.append_nil _).symm
  refine ⟨history, last, _, call, rest, reaches, parts, isRead, returns, nothing, ?_⟩
  rintro ⟨characters, length, stores, -⟩
  rw [stores.takenBy, nothing, List.length_nil] at length
  omega

end Zeos
